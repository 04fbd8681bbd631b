import Citizen.ClientRegistry.Drops

namespace fx

namespace ClientRegistry

variable {r r' : ClientRegistry}

/-- Up to the removal, a packet leaves the table of the registry as it is. -/
theorem same_connect {packet : ConnectPacket} {removed : Option ClientPtr}
    (h : r.connect packet = some (removed, r')) :
    SameClients r r' := by
  unfold connect at h
  split at h
  · cases h
    exact .refl r
  · split at h
    · cases h
      exact .refl r
    · rename_i b _
      dsimp only at h
      split_ifs at h
      · cases h
        exact .refl r
      · cases h
        exact .refl r
      · cases h
        exact same_setPeer r b packet.peer
      · obtain ⟨r'', hconnecting, heq⟩ := Option.map_eq_some_iff.mp h
        cases heq
        obtain ⟨netId, -, rfl⟩ := Option.map_eq_some_iff.mp hconnecting
        have hset := (same_setPeer r b packet.peer).trans (same_setNetId (r.setPeer b packet.peer) b netId)
        exact ⟨hset.bigMode, hset.nextClient, hset.alive, hset.clients, hset.newest, hset.guid⟩
      · cases h
        exact same_setPeer r b packet.peer

/-- The client that a packet removes is the one of its guid. -/
theorem connect_removed {packet : ConnectPacket} {c : ClientPtr} (h : r.connect packet = some (some c, r')) :
    r.clients packet.guid = some c := by
  unfold connect at h
  split at h
  · cases h
  · split at h
    · cases h
    · rename_i b hguid
      dsimp only at h
      split_ifs at h
      · cases h
        exact hguid
      · cases h
        exact hguid
      · cases h
        exact hguid
      · obtain ⟨r'', -, heq⟩ := Option.map_eq_some_iff.mp h
        cases heq
      · cases h

end ClientRegistry

namespace ClientDrops

open ClientRegistry

variable {s s' : ClientDrops} {c c' : ClientPtr}

/-- The client was not removed without a drop before, and no other client leaves the registry with it. -/
def RemovesOnce (s : ClientDrops) (c : ClientPtr) : Prop :=
  (s.isDropping c = false → s.removed c = false) ∧ s.Alone c

/-- No client that was removed without a drop is removed or dropped again. -/
def CallsOnce (s : ClientDrops) : RegistryCall → Prop
  | .connect packet => ∀ c r, s.registry.connect packet = some (some c, r) → s.RemovesOnce c
  | .dropClient c => s.isDropping c = false → s.removed c = false
  | .dropClientInternal c => s.RemovesOnce c
  | .removeClient c => s.RemovesOnce c
  | _ => True

/-- `OnDrop` has been called, or is about to be, for exactly the clients that were dropped or removed, and the
clients that have left are among them. -/
structure Settled (s : ClientDrops) : Prop where
  alive_lt : ∀ c, s.registry.alive c = true → c < s.registry.nextClient
  table : ∀ guid c, s.registry.clients guid = some c →
    (s.registry.objects c).guid = guid ∧ c < s.registry.nextClient
  fresh : ∀ c, s.registry.nextClient ≤ c →
    s.isDropping c = false ∧ s.removed c = false ∧ s.entered c = false
  counted : ∀ c, s.onDrops c + s.drops.count c = if s.isDropping c ∨ s.removed c then 1 else 0
  queued : ∀ c ∈ s.drops, s.isDropping c = true
  left : ∀ c, s.Left c → s.isDropping c = true ∨ s.removed c = true
  present : ∀ guid c, s.registry.clients guid = some c → s.removed c = false ∧ s.entered c = true

theorem Settled.once (h : s.Settled) : s.Once := by
  intro c
  have hcounted := h.counted c
  constructor
  · split at hcounted
    · exact hcounted.le
    · rw [hcounted]
      exact Nat.zero_le 1
  · intro hleft
    rw [hcounted, if_pos (h.left c hleft)]

/-- The table of the registry is the same, and the drops are. -/
theorem Settled.of_same (h : s.Settled) {r : ClientRegistry} (hclients : r.clients = s.registry.clients)
    (hnext : r.nextClient = s.registry.nextClient) (halive : ∀ c, r.alive c = true → s.registry.alive c = true)
    (hguid : ∀ c, (r.objects c).guid = (s.registry.objects c).guid) : Settled { s with registry := r } := by
  refine ⟨?_, ?_, ?_, h.counted, h.queued, fun c hleft => h.left c ?_, ?_⟩
  · dsimp only
    rw [hnext]
    exact fun c hc => h.alive_lt c (halive c hc)
  · dsimp only
    rw [hclients, hnext]
    intro guid c hfound
    rw [hguid]
    exact h.table guid c hfound
  · dsimp only
    rw [hnext]
    exact h.fresh
  · obtain ⟨hentered, hreg⟩ := hleft
    refine ⟨hentered, fun hold => hreg ?_⟩
    rw [Registered] at hold ⊢
    dsimp only
    rw [hclients, hguid]
    exact hold
  · dsimp only
    rw [hclients]
    exact h.present

/-- What `RemoveClient` leaves of the table. -/
theorem removeClient_table (r : ClientRegistry) (c : ClientPtr) : (r.removeClient c).nextClient = r.nextClient ∧
    (∀ c', ((r.removeClient c).objects c').guid = (r.objects c').guid) ∧
    ∀ guid, (r.removeClient c).clients guid = if guid = (r.objects c).guid then none else r.clients guid :=
  ⟨rfl, guid_update rfl, fun _ => Function.update_apply ..⟩

theorem Settled.removeClient (h : s.Settled) (honce : s.RemovesOnce c) (hmade : c < s.registry.nextClient) :
    (s.removeClient c).Settled := by
  obtain ⟨hremoved, halone⟩ := honce
  obtain ⟨hnext, hguid, hclients⟩ := removeClient_table s.registry c
  have hcalled : ∀ c', c' ≠ c → (s.removeClient c).onDrops c' = s.onDrops c' ∧
    (s.removeClient c).removed c' = s.removed c' := by
    intro c' hne
    simp only [ClientDrops.removeClient]
    split
    · exact ⟨rfl, rfl⟩
    · exact ⟨Function.update_of_ne hne .., Function.update_of_ne hne ..⟩
  have hself : s.isDropping c = true ∨ (s.removeClient c).removed c = true := by
    simp only [ClientDrops.removeClient]
    split
    · exact .inl ‹_›
    · exact .inr (Function.update_self ..)
  refine ⟨h.alive_lt, ?_, ?_, ?_, h.queued, ?_, ?_⟩
  · intro guid c' hfound
    have hfound : (s.registry.removeClient c).clients guid = some c' := hfound
    rw [hclients] at hfound
    obtain ⟨-, hfound⟩ := Option.ite_none_left_eq_some.mp hfound
    exact ⟨(hguid c').trans (h.table guid c' hfound).1, (h.table guid c' hfound).2⟩
  · intro c' hnew
    have hnew : s.registry.nextClient ≤ c' := hnew
    have hne : c' ≠ c := (hmade.trans_le hnew).ne'
    rw [(hcalled c' hne).2]
    exact h.fresh c' hnew
  · intro c'
    have hcounted := h.counted c'
    by_cases hne : c' = c
    · subst hne
      by_cases hdropping : s.isDropping c' = true
      · simp only [ClientDrops.removeClient, hdropping, if_true, true_or] at hcounted ⊢
        exact hcounted
      · rw [Bool.not_eq_true] at hdropping
        simp only [ClientDrops.removeClient, hdropping, hremoved hdropping, Bool.false_eq_true, if_false, or_self,
          Function.update_self, or_true, if_true] at hcounted ⊢
        omega
    · rw [(hcalled c' hne).1, (hcalled c' hne).2]
      exact hcounted
  · rintro c' ⟨hentered, hreg⟩
    by_cases hne : c' = c
    · rw [hne]
      exact hself
    · rw [(hcalled c' hne).2]
      by_cases hold : s.registry.Registered c'
      · -- it leaves with the other client, under the same guid
        refine .inl ((halone c' ?_).resolve_left hne)
        by_contra hother
        refine hreg ?_
        have hguid' : (s.registry.objects c').guid ≠ (s.registry.objects c).guid := by
          intro heq
          rw [Registered, heq] at hold
          exact hother hold
        have hkept : (s.registry.removeClient c).clients ((s.registry.removeClient c).objects c').guid = some c' := by
          rw [hguid, hclients, if_neg hguid']
          exact hold
        exact hkept
      · exact h.left c' ⟨hentered, hold⟩
  · intro guid c' hfound
    have hfound : (s.registry.removeClient c).clients guid = some c' := hfound
    rw [hclients] at hfound
    obtain ⟨hguid', hfound⟩ := Option.ite_none_left_eq_some.mp hfound
    obtain ⟨hsame, -⟩ := h.table guid c' hfound
    have hne : c' ≠ c := by
      rintro rfl
      exact hguid' hsame.symm
    rw [(hcalled c' hne).2]
    exact h.present guid c' hfound

theorem Settled.dropClient (h : s.Settled) (honce : s.isDropping c = false → s.removed c = false)
    (hmade : c < s.registry.nextClient) : (s.dropClient c).Settled := by
  unfold ClientDrops.dropClient
  split
  · exact h
  · rename_i hdropping
    rw [Bool.not_eq_true] at hdropping
    refine ⟨h.alive_lt, h.table, fun c' hnew => ?_, fun c' => ?_, fun c' hmem => ?_, fun c' hleft => ?_, h.present⟩
    · have hne : c' ≠ c := (hmade.trans_le hnew).ne'
      dsimp only
      rw [Function.update_of_ne hne]
      exact h.fresh c' hnew
    · have hcounted := h.counted c'
      dsimp only
      by_cases hne : c' = c
      · subst hne
        rw [hdropping, honce hdropping, if_neg (by decide)] at hcounted
        simp only [Function.update_self, List.count_cons_self, true_or, if_true]
        omega
      · simp only [Function.update_of_ne hne, List.count_cons_of_ne (Ne.symm hne)]
        exact hcounted
    · dsimp only at hmem ⊢
      rw [Function.update_apply]
      split
      · rfl
      · rename_i hne
        exact h.queued c' ((List.mem_cons.mp hmem).resolve_left hne)
    · dsimp only
      rw [Function.update_apply]
      split
      · exact .inl rfl
      · exact h.left c' hleft

theorem Settled.dropClientInternal (h : s.Settled) (honce : s.RemovesOnce c) (hmem : c ∈ s.drops) :
    (s.dropClientInternal c).Settled := by
  have hdropping := h.queued c hmem
  have hmade : c < s.registry.nextClient := by
    by_contra hnew
    have hfresh := (h.fresh c (Nat.not_lt.mp hnew)).1
    rw [hdropping] at hfresh
    cases hfresh
  refine Settled.removeClient ⟨h.alive_lt, h.table, h.fresh, fun c' => ?_,
    fun c' hmem' => h.queued c' (List.mem_of_mem_erase hmem'), h.left, h.present⟩ honce hmade
  have hcounted := h.counted c'
  dsimp only
  by_cases hne : c' = c
  · subst hne
    rw [Function.update_self, List.count_erase_self]
    have hpos := List.count_pos_iff.mpr hmem
    omega
  · rw [Function.update_of_ne hne, List.count_erase_of_ne hne]
    exact hcounted

/-- What `MakeClient` adds to the table. -/
theorem makeClient_table (r : ClientRegistry) (guid token : String) (netId : Nat) :
    let r' := ((r.makeClient guid).setConnectionToken r.nextClient token).setNetId r.nextClient netId
    r'.nextClient = r.nextClient + 1 ∧
    r'.clients = (if (r.clients guid).isSome then r.clients else Function.update r.clients guid (some r.nextClient)) ∧
    ∀ c, (r'.objects c).guid = if c = r.nextClient then guid else (r.objects c).guid := by
  refine ⟨rfl, rfl, fun c => ?_⟩
  rw [(same_setNetId _ _ _).guid, (same_setConnectionToken _ _ _).guid]
  simp only [ClientRegistry.makeClient, Function.update_apply]
  split
  · rfl
  · rfl

theorem Settled.makeClient (h : s.Settled) (guid token : String) (netId : Nat) :
    (s.makeClient guid token netId).Settled := by
  obtain ⟨hnext, hclients, hguid⟩ := makeClient_table s.registry guid token netId
  have hfresh := h.fresh s.registry.nextClient (le_refl _)
  have hentered : (s.makeClient guid token netId).entered =
      if (s.registry.clients guid).isSome then s.entered
      else Function.update s.entered s.registry.nextClient true := rfl
  refine ⟨?_, ?_, ?_, h.counted, h.queued, ?_, ?_⟩
  · intro c halive
    have halive : Function.update s.registry.alive s.registry.nextClient true c = true := halive
    rw [Function.update_apply] at halive
    split at halive
    · rename_i hc
      rw [hc]
      exact Nat.lt_succ_self _
    · exact (h.alive_lt c halive).trans (Nat.lt_succ_self _)
  · intro guid' c hfound
    have hfound := (congrFun hclients guid').symm.trans hfound
    have hold : s.registry.clients guid' = some c →
        ((s.makeClient guid token netId).registry.objects c).guid = guid' ∧ c < s.registry.nextClient + 1 := by
      intro hfound
      obtain ⟨hguid', hlt⟩ := h.table guid' c hfound
      exact ⟨(hguid c).trans ((if_neg hlt.ne).trans hguid'), hlt.trans (Nat.lt_succ_self _)⟩
    split at hfound
    · exact hold hfound
    · rw [Function.update_apply] at hfound
      split at hfound
      · rename_i heq
        cases hfound
        exact ⟨(hguid _).trans ((if_pos rfl).trans heq.symm), Nat.lt_succ_self _⟩
      · exact hold hfound
  · intro c hnew
    have hnew : s.registry.nextClient + 1 ≤ c := hnew
    obtain ⟨hdropping, hremoved, hnot⟩ := h.fresh c (Nat.le_of_succ_le hnew)
    refine ⟨hdropping, hremoved, ?_⟩
    rw [hentered]
    split
    · exact hnot
    · rw [Function.update_of_ne (Nat.lt_of_succ_le hnew).ne']
      exact hnot
  · rintro c ⟨hin, hreg⟩
    rw [Registered] at hreg
    have hreg : ¬ (if (s.registry.clients guid).isSome then s.registry.clients
        else Function.update s.registry.clients guid (some s.registry.nextClient))
          ((s.makeClient guid token netId).registry.objects c).guid = some c := hreg
    have hguid' : ((s.makeClient guid token netId).registry.objects c).guid =
        if c = s.registry.nextClient then guid else (s.registry.objects c).guid := hguid c
    rw [hguid'] at hreg
    rw [hentered] at hin
    by_cases hc : c = s.registry.nextClient
    · subst hc
      rw [if_pos rfl] at hreg
      split at hin
      · rw [hfresh.2.2] at hin
        cases hin
      · rename_i hnone
        rw [if_neg hnone, Function.update_self] at hreg
        exact absurd rfl hreg
    · rw [if_neg hc] at hreg
      refine h.left c ⟨?_, fun hold => hreg ?_⟩
      · split at hin
        · exact hin
        · rw [Function.update_of_ne hc] at hin
          exact hin
      · rw [Registered] at hold
        split
        · exact hold
        · rename_i hnone
          rw [Function.update_of_ne]
          · exact hold
          · rintro heq
            rw [heq] at hold
            rw [hold] at hnone
            exact hnone rfl
  · intro guid' c hfound
    have hfound := (congrFun hclients guid').symm.trans hfound
    rw [hentered]
    split at hfound
    · rename_i hsome
      rw [if_pos hsome]
      exact h.present guid' c hfound
    · rename_i hnone
      rw [if_neg hnone]
      rw [Function.update_apply] at hfound
      split at hfound
      · cases hfound
        rw [Function.update_self]
        exact ⟨hfresh.2.1, rfl⟩
      · obtain ⟨-, hlt⟩ := h.table guid' c hfound
        rw [Function.update_of_ne hlt.ne]
        exact h.present guid' c hfound

/-- The calls are for clients that were made, and a drop on the main thread was queued. -/
def Made (s : ClientDrops) : RegistryCall → Prop
  | .dropClient c => c < s.registry.nextClient
  | .removeClient c => c < s.registry.nextClient
  | .dropClientInternal c => c ∈ s.drops
  | _ => True

theorem Settled.call (h : s.Settled) {call : RegistryCall} (honce : s.CallsOnce call) (hmade : s.Made call) :
    (s.call call).Settled := by
  cases call with
  | makeClient guid token netId => exact h.makeClient guid token netId
  | connect packet =>
    dsimp only [ClientDrops.call]
    cases hconnect : s.registry.connect packet with
    | none => exact h
    | some result =>
      obtain ⟨removed, r⟩ := result
      have hsame := same_connect hconnect
      have hnext : Settled { s with registry := r } := h.of_same hsame.clients hsame.nextClient
        (fun c hc => hsame.alive ▸ hc) hsame.guid
      cases removed with
      | none => exact hnext
      | some c =>
        obtain ⟨hremoved, halone⟩ := honce c r hconnect
        refine hnext.removeClient ⟨hremoved, ?_⟩ ?_
        · unfold Alone at halone ⊢
          dsimp only
          rw [hsame.clients, hsame.guid]
          exact halone
        · have hmade' := (h.table _ c (connect_removed hconnect)).2
          rw [← hsame.nextClient] at hmade'
          exact hmade'
  | allowClient c =>
    dsimp only [ClientDrops.call]
    split
    · exact h.of_same rfl rfl (fun _ hc => hc) (guid_update rfl)
    · exact h
  | dropClient c => exact h.dropClient honce hmade
  | dropClientInternal c => exact h.dropClientInternal honce hmade
  | removeClient c => exact h.removeClient honce hmade
  | destroy c =>
    refine h.of_same rfl rfl (fun c' hc' => ?_) fun _ => rfl
    have hc' : Function.update s.registry.alive c false c' = true := hc'
    rw [Function.update_apply] at hc'
    split at hc'
    · cases hc'
    · exact hc'

/-- No call takes a client back. -/
theorem nextClient_le (s : ClientDrops) (call : RegistryCall) :
    s.registry.nextClient ≤ (s.call call).registry.nextClient := by
  cases call with
  | makeClient => exact Nat.le_succ _
  | connect packet =>
    dsimp only [ClientDrops.call]
    cases hconnect : s.registry.connect packet with
    | none => exact le_refl _
    | some result =>
      obtain ⟨removed, r⟩ := result
      have hsame := same_connect hconnect
      cases removed with
      | none => exact hsame.nextClient.ge
      | some c => exact hsame.nextClient.ge
  | allowClient c =>
    dsimp only [ClientDrops.call]
    split
    · exact le_refl _
    · exact le_refl _
  | dropClient c =>
    dsimp only [ClientDrops.call, ClientDrops.dropClient]
    split
    · exact le_refl _
    · exact le_refl _
  | dropClientInternal => exact le_refl _
  | removeClient => exact le_refl _
  | destroy => exact le_refl _

theorem nextClient_le_foldl (s : ClientDrops) (calls : List RegistryCall) :
    s.registry.nextClient ≤ (calls.foldl ClientDrops.call s).registry.nextClient := by
  induction calls generalizing s with
  | nil => exact le_refl _
  | cons call calls ih => exact (nextClient_le s call).trans (ih (s.call call))

/-- The call is for a client that was made, and is not a queued drop. -/
def Bounded (s : ClientDrops) : RegistryCall → Prop
  | .dropClient c => c < s.registry.nextClient
  | .removeClient c => c < s.registry.nextClient
  | .dropClientInternal _ => False
  | _ => True

theorem Bounded.made {call : RegistryCall} (h : s.Bounded call) : s.Made call := by
  cases call with
  | dropClientInternal => exact h.elim
  | dropClient => exact h
  | removeClient => exact h
  | makeClient | connect | allowClient | destroy => trivial

theorem Bounded.mono {call : RegistryCall} (h : s.Bounded call)
    (hle : s.registry.nextClient ≤ s'.registry.nextClient) : s'.Bounded call := by
  cases call with
  | dropClientInternal => exact h.elim
  | dropClient => exact lt_of_lt_of_le h hle
  | removeClient => exact lt_of_lt_of_le h hle
  | makeClient | connect | allowClient | destroy => trivial

/-- A client that has been in the table was made. -/
theorem Settled.lt_of_entered (h : s.Settled) (hentered : s.entered c = true) : c < s.registry.nextClient := by
  by_contra hnew
  have hfresh := (h.fresh c (Nat.not_lt.mp hnew)).2.2
  rw [hentered] at hfresh
  cases hfresh

theorem registered_removeClient {r : ClientRegistry} {b : ClientPtr} (hreg : (r.removeClient b).Registered c) :
    r.Registered c := by
  obtain ⟨-, hguid, hclients⟩ := removeClient_table r b
  rw [Registered, hguid, hclients] at hreg
  exact (Option.ite_none_left_eq_some.mp hreg).2

theorem guid_allowClient (r : ClientRegistry) (b c : ClientPtr) :
    ((r.modify b fun client => { client with passedValidation := true }).objects c).guid = (r.objects c).guid := by
  refine guid_update ?_ c
  rfl

/-- No call takes a client into the table that it was not made for. -/
theorem registered_call {call : RegistryCall} (hmade : c < s.registry.nextClient)
    (hreg : (s.call call).registry.Registered c) : s.registry.Registered c := by
  cases call with
  | makeClient guid token netId =>
    obtain ⟨-, hclients, hguid⟩ := makeClient_table s.registry guid token netId
    have hreg : (((s.registry.makeClient guid).setConnectionToken s.registry.nextClient token).setNetId
        s.registry.nextClient netId).Registered c := hreg
    rw [Registered, hclients, hguid, if_neg hmade.ne] at hreg
    split at hreg
    · exact hreg
    · rw [Function.update_apply] at hreg
      split at hreg
      · cases hreg
        exact absurd hmade (Nat.lt_irrefl _)
      · exact hreg
  | connect packet =>
    dsimp only [ClientDrops.call] at hreg
    cases hconnect : s.registry.connect packet with
    | none =>
      rw [hconnect] at hreg
      exact hreg
    | some result =>
      obtain ⟨removed, r⟩ := result
      have hsame := same_connect hconnect
      have hkept (hreg : r.Registered c) : s.registry.Registered c := by
        rwa [Registered, hsame.clients, hsame.guid] at hreg
      rw [hconnect] at hreg
      cases removed with
      | none => exact hkept hreg
      | some b => exact hkept (registered_removeClient hreg)
  | allowClient b =>
    dsimp only [ClientDrops.call] at hreg
    split at hreg
    · have hreg : s.registry.clients
          ((s.registry.modify b fun client => { client with passedValidation := true }).objects c).guid =
            some c := hreg
      rwa [guid_allowClient] at hreg
    · exact hreg
  | dropClient b =>
    dsimp only [ClientDrops.call, ClientDrops.dropClient] at hreg
    split at hreg
    · exact hreg
    · exact hreg
  | dropClientInternal b => exact registered_removeClient hreg
  | removeClient b => exact registered_removeClient hreg
  | destroy b => exact hreg

theorem entered_call {call : RegistryCall} (hentered : s.entered c = true) : (s.call call).entered c = true := by
  cases call with
  | makeClient guid token netId =>
    have hnew : (s.makeClient guid token netId).entered =
        if (s.registry.clients guid).isSome then s.entered
        else Function.update s.entered s.registry.nextClient true := rfl
    dsimp only [ClientDrops.call]
    rw [hnew]
    split
    · exact hentered
    · rw [Function.update_apply]
      split
      · rfl
      · exact hentered
  | connect packet =>
    dsimp only [ClientDrops.call]
    split <;> exact hentered
  | allowClient b =>
    dsimp only [ClientDrops.call]
    split <;> exact hentered
  | dropClient b =>
    dsimp only [ClientDrops.call, ClientDrops.dropClient]
    split <;> exact hentered
  | dropClientInternal b => exact hentered
  | removeClient b => exact hentered
  | destroy b => exact hentered

/-- A client that has left does not come back. -/
theorem Settled.left_call (h : s.Settled) {call : RegistryCall} (hleft : s.Left c) : (s.call call).Left c :=
  ⟨entered_call hleft.1, fun hreg => hleft.2 (registered_call (h.lt_of_entered hleft.1) hreg)⟩

/-- Who is removed without a drop: the client of the call, if it is not dropping, and the one of a refused
handshake. -/
theorem removed_call {call : RegistryCall} (hremoved : (s.call call).removed c = true) :
    s.removed c = true ∨ s.isDropping c = false ∧ (call = .removeClient c ∨ call = .dropClientInternal c ∨
      ∃ packet r, call = .connect packet ∧ s.registry.connect packet = some (some c, r)) := by
  have hremove {t : ClientDrops} {b : ClientPtr} (hremoved : (t.removeClient b).removed c = true) :
      t.removed c = true ∨ t.isDropping c = false ∧ c = b := by
    simp only [ClientDrops.removeClient] at hremoved
    split at hremoved
    · exact .inl hremoved
    · rename_i hdropping
      rw [Function.update_apply] at hremoved
      split at hremoved
      · rename_i hsame
        exact .inr ⟨hsame ▸ Bool.not_eq_true _ ▸ hdropping, hsame⟩
      · exact .inl hremoved
  cases call with
  | makeClient guid token netId => exact .inl hremoved
  | connect packet =>
    dsimp only [ClientDrops.call] at hremoved
    split at hremoved
    · exact .inl hremoved
    · exact .inl hremoved
    · rename_i b r hconnect
      obtain hold | ⟨hdropping, rfl⟩ := hremove hremoved
      · exact .inl hold
      · exact .inr ⟨hdropping, .inr (.inr ⟨packet, r, rfl, hconnect⟩)⟩
  | allowClient b =>
    dsimp only [ClientDrops.call] at hremoved
    split at hremoved
    · exact .inl hremoved
    · exact .inl hremoved
  | dropClient b =>
    dsimp only [ClientDrops.call, ClientDrops.dropClient] at hremoved
    split at hremoved
    · exact .inl hremoved
    · exact .inl hremoved
  | dropClientInternal b =>
    obtain hold | ⟨hdropping, rfl⟩ := hremove hremoved
    · exact .inl hold
    · exact .inr ⟨hdropping, .inr (.inl rfl)⟩
  | removeClient b =>
    obtain hold | ⟨hdropping, rfl⟩ := hremove hremoved
    · exact .inl hold
    · exact .inr ⟨hdropping, .inl rfl⟩
  | destroy b => exact .inl hremoved

/-- A removal of a dropping client, and an admission, leave what a removal needs. -/
theorem RemovesOnce.call (h : s.RemovesOnce c) {call : RegistryCall}
    (hcall : call = .allowClient c ∨ call = .removeClient c ∧ s.isDropping c = true) :
    (s.call call).RemovesOnce c := by
  obtain rfl | ⟨rfl, hdropping⟩ := hcall
  · dsimp only [ClientDrops.call]
    split
    · refine ⟨h.1, fun c' hfound => h.2 c' ?_⟩
      have hfound : s.registry.clients
          ((s.registry.modify c fun client => { client with passedValidation := true }).objects c).guid =
            some c' := hfound
      rwa [guid_allowClient] at hfound
    · exact h
  · obtain ⟨-, hguid, hclients⟩ := removeClient_table s.registry c
    refine ⟨fun hnot => ?_, fun c' hfound => ?_⟩
    · have hnot : s.isDropping c = false := hnot
      rw [hdropping] at hnot
      cases hnot
    · have hfound : (s.registry.removeClient c).clients ((s.registry.removeClient c).objects c).guid =
        some c' := hfound
      rw [hclients, hguid, if_pos rfl] at hfound
      cases hfound

theorem Settled.calls {calls : List RegistryCall} (h : s.Settled) (hbounded : ∀ call ∈ calls, s.Bounded call)
    (honce : Loop.Along ClientDrops.call CallsOnce s calls) : (calls.foldl ClientDrops.call s).Settled := by
  induction calls generalizing s with
  | nil => exact h
  | cons call calls ih =>
    obtain ⟨hfirst, hrest⟩ := honce
    have hnext := h.call hfirst (hbounded call List.mem_cons_self).made
    exact ih hnext (fun call' hmem =>
      (hbounded call' (List.mem_cons_of_mem call hmem)).mono (nextClient_le s call)) hrest

/-- The call removes no client. -/
def Spares : RegistryCall → Prop
  | .dropClient _ | .makeClient .. => True
  | _ => False

theorem Settled.foldl_removed {calls : List RegistryCall} (h : s.Settled) (hbounded : ∀ call ∈ calls, s.Bounded call)
    (honce : Loop.Along ClientDrops.call CallsOnce s calls) (hspares : ∀ call ∈ calls, Spares call) (c : ClientPtr)
    (hremoved : (calls.foldl ClientDrops.call s).removed c = true) :
    (∀ c', s.Left c' → (calls.foldl ClientDrops.call s).Left c') ∧ s.removed c = true := by
  induction calls generalizing s with
  | nil => exact ⟨fun _ hleft => hleft, hremoved⟩
  | cons call calls ih =>
    obtain ⟨hfirst, hrest⟩ := honce
    obtain ⟨hcall, hspares⟩ := List.forall_mem_cons.mp hspares
    obtain ⟨hbound, hbounded⟩ := List.forall_mem_cons.mp hbounded
    obtain ⟨hleft, hold⟩ := ih (h.call hfirst hbound.made)
      (fun call' hmem => (hbounded call' hmem).mono (nextClient_le s call)) hrest hspares hremoved
    refine ⟨fun c' hold => hleft c' (h.left_call hold), ?_⟩
    obtain hold | ⟨-, rfl | rfl | ⟨packet, r, rfl, -⟩⟩ := removed_call hold
    · exact hold
    · exact hcall.elim
    · exact hcall.elim
    · exact hcall.elim

/-- Admissions need nothing. -/
theorem along_admitted {calls : List RegistryCall} (hadmitted : ∀ call ∈ calls, call = .allowClient c) :
    Loop.Along ClientDrops.call CallsOnce s calls := by
  induction calls generalizing s with
  | nil => trivial
  | cons call calls ih =>
    obtain ⟨rfl, hrest⟩ := List.forall_mem_cons.mp hadmitted
    exact ⟨trivial, ih hrest⟩

theorem along_remove_last {calls : List RegistryCall} (hadmitted : ∀ call ∈ calls, call = .allowClient c)
    (honce : s.RemovesOnce c) : Loop.Along ClientDrops.call CallsOnce s (calls ++ [.removeClient c]) := by
  induction calls generalizing s with
  | nil => exact ⟨honce, trivial⟩
  | cons call calls ih =>
    obtain ⟨rfl, hrest⟩ := List.forall_mem_cons.mp hadmitted
    exact ⟨trivial, ih hrest (honce.call (.inl rfl))⟩

/-- A client that is dropping may be removed any number of times. -/
theorem along_of_dropping {calls : List RegistryCall} (honce : s.RemovesOnce c) (hdropping : s.isDropping c = true)
    (hown : ∀ call ∈ calls, call = .removeClient c ∨ call = .allowClient c) :
    Loop.Along ClientDrops.call CallsOnce s calls := by
  induction calls generalizing s with
  | nil => trivial
  | cons call calls ih =>
    obtain ⟨hcall, hrest⟩ := List.forall_mem_cons.mp hown
    have hsame : (s.call call).isDropping = s.isDropping := by
      obtain rfl | rfl := hcall
      · rfl
      · dsimp only [ClientDrops.call]
        split <;> rfl
    refine ⟨?_, ih (honce.call (hcall.symm.imp_right fun heq => ⟨heq, hdropping⟩)) (hsame ▸ hdropping) hrest⟩
    obtain rfl | rfl := hcall
    · exact honce
    · trivial

/-- Calls with a client of its own leave who has left, and remove that client alone. -/
theorem Settled.own_calls {calls : List RegistryCall} (h : s.Settled) (hmade : c < s.registry.nextClient)
    (hown : ∀ call ∈ calls, call = .removeClient c ∨ call = .allowClient c)
    (honce : Loop.Along ClientDrops.call CallsOnce s calls) :
    (∀ c', s.Left c' → (calls.foldl ClientDrops.call s).Left c') ∧
      ∀ c', (calls.foldl ClientDrops.call s).removed c' = true →
        s.removed c' = true ∨ c' = c ∧ .removeClient c ∈ calls := by
  induction calls generalizing s with
  | nil => exact ⟨fun _ hleft => hleft, fun _ hremoved => .inl hremoved⟩
  | cons call calls ih =>
    obtain ⟨hfirst, hrest⟩ := honce
    obtain ⟨hcall, hown⟩ := List.forall_mem_cons.mp hown
    have hbounded : s.Bounded call := by
      obtain rfl | rfl := hcall
      · exact hmade
      · trivial
    obtain ⟨hleft, hremoved⟩ := ih (h.call hfirst hbounded.made) (hmade.trans_le (nextClient_le s call)) hown hrest
    refine ⟨fun c' hold => hleft c' (h.left_call hold), fun c' hold => ?_⟩
    obtain hold | ⟨rfl, hmem⟩ := hremoved c' hold
    · obtain hold | ⟨-, hwho⟩ := removed_call hold
      · exact .inl hold
      · obtain rfl | rfl := hcall
        · obtain heq | heq | ⟨packet, r, heq, -⟩ := hwho
          · cases heq
            exact .inr ⟨rfl, List.mem_cons_self⟩
          · cases heq
          · cases heq
        · obtain heq | heq | ⟨packet, r, heq, -⟩ := hwho
          · cases heq
          · cases heq
          · cases heq
    · exact .inr ⟨rfl, List.mem_cons_of_mem call hmem⟩

end ClientDrops

namespace ClientDeferral

variable {d : ClientDeferral}

/-- The states are the same, and a rejection completes the deferral. -/
theorem updateDeferrals_rejected (d : ClientDeferral) :
    d.updateDeferrals.1.rejected = d.rejected ∧ (d.completed = true → d.updateDeferrals.1.completed = true) ∧
      (d.updateDeferrals.2 = some .reject →
        d.ranEvents = true ∧ d.rejected = true ∧ d.updateDeferrals.1.completed = true) := by
  unfold ClientDeferral.updateDeferrals
  split_ifs with hearly hrejected hdone
  · exact ⟨rfl, fun h => h, nofun⟩
  · exact ⟨rfl, fun _ => rfl, fun _ => ⟨Bool.not_eq_false _ ▸ hearly, hrejected, rfl⟩⟩
  · exact ⟨rfl, fun _ => rfl, nofun⟩
  · exact ⟨rfl, fun h => h, nofun⟩

theorem rejected_setState {resource : String} {state : Bool × Bool}
    (h : (d.setState resource state).rejected = true) : state.2 = true ∨ d.rejected = true := by
  simp only [ClientDeferral.rejected, ClientDeferral.setState, List.any_cons, Bool.or_eq_true] at h
  refine h.imp_right fun h => ?_
  obtain ⟨entry, hmem, hentry⟩ := List.any_eq_true.mp h
  exact List.any_eq_true.mpr ⟨entry, (List.mem_filter.mp hmem).1, hentry⟩

theorem rejected_of_deferralState {resource : String} (h : (d.deferralState resource).2 = true) :
    d.rejected = true := by
  unfold ClientDeferral.deferralState at h
  cases hfind : d.deferralStates.find? (·.1 == resource) with
  | none =>
    rw [hfind] at h
    cases h
  | some entry =>
    rw [hfind] at h
    exact List.any_eq_true.mpr ⟨entry, List.mem_of_find?_eq_some hfind, h⟩

/-- A callback that rejects the client is one that `rejects` names, and completes the deferral. -/
theorem receive_reject {call : DeferralCall} (h : (d.receive call).2 = some .reject) :
    d.rejects call = true ∧ (d.receive call).1.completed = true ∧ (d.receive call).1.rejected = true := by
  have hupdate {d' : ClientDeferral} (h : d'.updateDeferrals.2 = some .reject) :
      d'.ranEvents = true ∧ d'.rejected = true ∧ d'.updateDeferrals.1.completed = true ∧
        d'.updateDeferrals.1.rejected = true := by
    obtain ⟨hsame, -, hreject⟩ := updateDeferrals_rejected d'
    obtain ⟨hran, hrejected, hcompleted⟩ := hreject h
    exact ⟨hran, hrejected, hcompleted, hsame.trans hrejected⟩
  cases call with
  | defer resource =>
    obtain ⟨hran, hrejected, hafter⟩ := hupdate h
    refine ⟨?_, hafter⟩
    have hran : d.ranEvents = true := hran
    have hold := (rejected_setState hrejected).resolve_left Bool.false_ne_true
    rw [ClientDeferral.rejects, hran, hold]
    rfl
  | update resource message =>
    cases message with
    | false => cases h
    | true =>
      obtain ⟨hran, hrejected, hafter⟩ := hupdate h
      refine ⟨?_, hafter⟩
      have hran : d.ranEvents = true := hran
      have hold := (rejected_setState hrejected).elim rejected_of_deferralState fun hold => hold
      rw [ClientDeferral.rejects, hran, hold]
      rfl
  | done resource message =>
    obtain ⟨hran, hrejected, hafter⟩ := hupdate h
    refine ⟨?_, hafter⟩
    have hran : d.ranEvents = true := hran
    rw [ClientDeferral.rejects, hran, Bool.true_and, Bool.or_eq_true]
    obtain hnew | hold := rejected_setState hrejected
    · obtain hold | hmessage := Bool.or_eq_true_iff.mp hnew
      · exact .inl (rejected_of_deferralState hold)
      · exact .inr hmessage
    · exact .inl hold
  | presentCard resource callback => cases h

/-- The end of the event keeps a rejection, and completes the deferral with one that waits. -/
theorem runEvents_rejected (d : ClientDeferral) :
    (d.completed = true ∧ d.rejected = true → d.runEvents.1.completed = true ∧ d.runEvents.1.rejected = true) ∧
      (d.runEvents.2 = some .reject →
        (d.pending = true ∧ d.rejected = true) ∧ d.runEvents.1.completed = true ∧ d.runEvents.1.rejected = true) := by
  have hran : ({ d with ranEvents := true } : ClientDeferral).rejected = d.rejected := rfl
  obtain ⟨hsame, hkept, hreject⟩ := updateDeferrals_rejected { d with ranEvents := true }
  unfold ClientDeferral.runEvents
  dsimp only
  split_ifs with hpending
  · have hsame' : ({ (ClientDeferral.updateDeferrals { d with ranEvents := true }).1 with pending := false } :
        ClientDeferral).rejected = d.rejected := hsame.trans hran
    refine ⟨fun h => ⟨hkept h.1, hsame'.trans h.2⟩, fun h => ?_⟩
    obtain ⟨-, hrejected, hcompleted⟩ := hreject h
    exact ⟨⟨hpending, hrejected⟩, hcompleted, hsame'.trans hrejected⟩
  · exact ⟨fun h => h, nofun⟩

end ClientDeferral

namespace Attempt

variable {attempt : Attempt} {alive : Bool}

theorem gone_iff : attempt.gone = true ↔ attempt.phase = .refused ∨
    (attempt.deferral.completed = true ∧ attempt.deferral.rejected = true) ∨
    attempt.cancelled = true ∧ attempt.didSucceed = false := by
  simp only [Attempt.gone, Bool.or_eq_true, Bool.and_eq_true, beq_iff_eq, Bool.not_eq_true', or_assoc]

/-- The handler of a cancellation is there from the end of the authentication on, and it runs once. -/
structure Ready (attempt : Attempt) : Prop where
  authenticating : attempt.phase = .authenticating → attempt.cancelHandler = false ∧ attempt.cancelled = false
  cancelled : attempt.cancelled = true → attempt.cancelHandler = false

/-- An attempt only calls for its own client; once it has removed it, it has turned it away, for good. -/
structure Own (attempt : Attempt) (result : Attempt × List RegistryCall) : Prop where
  client : result.1.client = attempt.client
  calls : ∀ call ∈ result.2, call = .removeClient attempt.client ∨ call = .allowClient attempt.client
  ready : attempt.Ready → result.1.Ready
  gone : attempt.Ready → attempt.gone = true → result.1.gone = true
  removes : .removeClient attempt.client ∈ result.2 → result.1.gone = true

/-- The state of the deferral changes, and the attempt may succeed. -/
theorem own_settle {deferral : ClientDeferral} {kept : Bool} {result : Option DeferralResult}
    (hkept : attempt.deferral.completed = true ∧ attempt.deferral.rejected = true →
      deferral.completed = true ∧ deferral.rejected = true)
    (hreject : result = some .reject → deferral.completed = true ∧ deferral.rejected = true) :
    attempt.Own (({ attempt with deferral, kept } : Attempt).settle alive result) := by
  cases result with
  | none =>
    refine ⟨rfl, fun _ hmem => (nomatch hmem), fun h => ⟨h.1, h.2⟩, fun _ h => ?_, fun hmem => (nomatch hmem)⟩
    exact gone_iff.mpr ((gone_iff.mp h).imp_right (Or.imp_left hkept))
  | some result =>
    cases result with
    | resolve =>
      refine ⟨rfl, fun _ hmem => .inr (List.mem_singleton.mp hmem), fun h => ⟨h.1, h.2⟩, fun hready h => ?_,
        fun hmem => (nomatch List.mem_singleton.mp hmem)⟩
      refine gone_iff.mpr ((gone_iff.mp h).imp_right (Or.imp hkept fun hcancelled => ⟨hcancelled.1, ?_⟩))
      have hsame : (({ attempt with deferral, kept } : Attempt).settle alive (some .resolve)).1.didSucceed =
          (attempt.didSucceed || attempt.cancelHandler) := rfl
      rw [hsame, hcancelled.2, hready.cancelled hcancelled.1]
      rfl
    | reject =>
      have hgone : (({ attempt with deferral, kept } : Attempt).settle alive (some .reject)).1.gone = true :=
        gone_iff.mpr (.inr (.inl (hreject rfl)))
      refine ⟨rfl, fun call hmem => .inl ?_, fun h => ⟨h.1, h.2⟩, fun _ _ => hgone, fun _ => hgone⟩
      have hmem : call ∈ if alive then [.removeClient attempt.client] else [] := hmem
      split at hmem
      · exact List.mem_singleton.mp hmem
      · cases hmem

theorem own_receive (attempt : Attempt) (alive : Bool) (call : DeferralCall) :
    attempt.Own (attempt.receive alive call) := by
  unfold Attempt.receive
  split
  · exact ⟨rfl, fun _ hmem => (nomatch hmem), fun h => h, fun _ h => h, fun hmem => (nomatch hmem)⟩
  · rename_i hopen
    refine own_settle (fun hdone => absurd (.inr hdone.1) hopen) fun hreject => ?_
    exact (ClientDeferral.receive_reject hreject).2

/-- The attempt is refused, with a call for its client or without. -/
theorem own_refused (attempt : Attempt) {calls : List RegistryCall}
    (hcalls : ∀ call ∈ calls, call = .removeClient attempt.client ∨ call = .allowClient attempt.client) :
    attempt.Own ({ attempt with phase := .refused }, calls) := by
  have hgone : ({ attempt with phase := .refused } : Attempt).gone = true := gone_iff.mpr (.inl rfl)
  exact ⟨rfl, hcalls, fun h => ⟨nofun, h.2⟩, fun _ _ => hgone, fun _ => hgone⟩

/-- The attempt goes on without a call, in a phase from which it can still be refused. -/
theorem own_phase {phase : AttemptPhase} (hphase : attempt.phase ≠ .refused) (hnot : phase ≠ .authenticating) :
    attempt.Own ({ attempt with phase }, []) := by
  refine ⟨rfl, fun _ hmem => (nomatch hmem), fun h => ⟨fun heq => absurd heq hnot, h.2⟩, fun _ h => ?_,
    fun hmem => (nomatch hmem)⟩
  exact gone_iff.mpr (.inr ((gone_iff.mp h).resolve_left hphase))

/-- The request gets its cancel handler. -/
theorem own_passed (hphase : attempt.phase = .authenticating) :
    attempt.Own ({ attempt with phase := .queued, deferrals := true, cancelHandler := true }, []) := by
  refine ⟨rfl, fun _ hmem => (nomatch hmem), fun h => ⟨nofun, fun hcancelled => ?_⟩, fun _ h => ?_,
    fun hmem => (nomatch hmem)⟩
  · have hcancelled : attempt.cancelled = true := hcancelled
    rw [(h.authenticating hphase).2] at hcancelled
    cases hcancelled
  · refine gone_iff.mpr (.inr ((gone_iff.mp h).resolve_left ?_))
    rw [hphase]
    exact nofun

theorem own_cancel (hhandler : attempt.cancelHandler = true) : attempt.Own (attempt.cancel alive) := by
  have hcalls : ∀ call ∈ (attempt.cancel alive).2, attempt.didSucceed = false ∧
    call = .removeClient attempt.client := by
    intro call hmem
    have hmem : call ∈ if attempt.didSucceed = false ∧ alive then [.removeClient attempt.client] else [] := hmem
    split at hmem
    · exact ⟨(‹_› : _ ∧ _).1, List.mem_singleton.mp hmem⟩
    · cases hmem
  refine ⟨rfl, fun call hmem => .inl (hcalls call hmem).2, fun h => ⟨fun hphase => ?_, fun _ => rfl⟩, fun _ h => ?_,
    fun hmem => gone_iff.mpr (.inr (.inr ⟨rfl, (hcalls _ hmem).1⟩))⟩
  · have hnone := (h.authenticating hphase).1
    rw [hhandler] at hnone
    cases hnone
  · exact gone_iff.mpr ((gone_iff.mp h).imp_right (Or.imp_right fun hcancelled => ⟨rfl, hcancelled.2⟩))

/-- One more call for the client, and a change that keeps what the attempt has come to. -/
theorem Own.append {result : Attempt × List RegistryCall} (h : attempt.Own result) {attempt' : Attempt}
    {calls : List RegistryCall} (hclient : attempt'.client = result.1.client)
    (hready : result.1.Ready → attempt'.Ready)
    (hgone : result.1.Ready → result.1.gone = true → attempt'.gone = true)
    (hcalls : ∀ call ∈ calls, call = .removeClient attempt.client ∧ attempt'.gone = true ∨
      call = .allowClient attempt.client)
    (hown : attempt.Ready) : attempt.Own (attempt', result.2 ++ calls) := by
  refine ⟨hclient.trans h.client, fun call hmem => ?_, fun h' => hready (h.ready h'),
    fun h' hold => hgone (h.ready h') (h.gone h' hold), fun hmem => ?_⟩
  · obtain hmem | hmem := List.mem_append.mp hmem
    · exact h.calls call hmem
    · exact (hcalls call hmem).imp_left And.left
  · obtain hmem | hmem := List.mem_append.mp hmem
    · exact hgone (h.ready hown) (h.removes hmem)
    · obtain ⟨-, hgone⟩ | heq := hcalls _ hmem
      · exact hgone
      · cases heq

/-- The phase does not matter for what the deferral and the cancellation have come to. -/
theorem gone_phase {phase : AttemptPhase} (hgone : attempt.gone = true) (hphase : attempt.phase ≠ .refused) :
    ({ attempt with phase } : Attempt).gone = true :=
  gone_iff.mpr (.inr ((gone_iff.mp hgone).resolve_left hphase))

theorem phase_settle (attempt : Attempt) (alive : Bool) (result : Option DeferralResult) :
    (attempt.settle alive result).1.phase = attempt.phase := by
  cases result with
  | none => rfl
  | some result => cases result <;> rfl

theorem own_endEvent {deferralsRef canceled : Bool} (hphase : attempt.phase = .inEvent deferralsRef)
    (hready : attempt.Ready) :
    attempt.Own (attempt.endEvent deferralsRef canceled alive) := by
  have hrun : attempt.Own (({ attempt with
      deferral := (if deferralsRef then attempt.deferral.runEvents else (attempt.deferral, none)).1 } :
        Attempt).settle alive (if deferralsRef then attempt.deferral.runEvents else (attempt.deferral, none)).2) := by
    cases deferralsRef with
    | false => exact own_settle (fun h => h) nofun
    | true =>
      obtain ⟨hkept, hreject⟩ := ClientDeferral.runEvents_rejected attempt.deferral
      exact own_settle hkept fun h => (hreject h).2
  have hnot : (({ attempt with
      deferral := (if deferralsRef then attempt.deferral.runEvents else (attempt.deferral, none)).1 } :
        Attempt).settle alive
          (if deferralsRef then attempt.deferral.runEvents else (attempt.deferral, none)).2).1.phase ≠ .refused := by
    rw [phase_settle]
    dsimp only
    rw [hphase]
    exact nofun
  unfold Attempt.endEvent
  dsimp only
  generalize (({ attempt with
      deferral := (if deferralsRef then attempt.deferral.runEvents else (attempt.deferral, none)).1 } :
        Attempt).settle alive (if deferralsRef then attempt.deferral.runEvents else (attempt.deferral, none)).2) =
          settled at hrun hnot ⊢
  have hrefused : ({ settled.1 with phase := .refused } : Attempt).gone = true := gone_iff.mpr (.inl rfl)
  have hremove : attempt.Own
    ({ settled.1 with phase := .refused }, settled.2 ++ [.removeClient settled.1.client]) := by
    refine hrun.append rfl (fun h => ⟨nofun, h.2⟩) (fun _ _ => hrefused) (fun call hmem => .inl ⟨?_, hrefused⟩) hready
    rw [List.mem_singleton.mp hmem, hrun.client]
  split_ifs
  · exact hremove
  · exact hremove
  · have hover : attempt.Own ({ settled.1 with phase := .over }, settled.2 ++ []) :=
      hrun.append rfl (fun h => ⟨nofun, h.2⟩) (fun _ hgone => gone_phase hgone hnot)
        (fun _ hmem => (nomatch hmem)) hready
    rwa [List.append_nil] at hover
  · refine hrun.append rfl (fun h => ⟨nofun, h.2⟩) (fun hready hgone => ?_) (fun call hmem => .inr ?_) hready
    · refine gone_iff.mpr (.inr (((gone_iff.mp hgone).resolve_left hnot).imp_right fun hcancelled =>
        ⟨hcancelled.1, ?_⟩))
      have hsame : (settled.1.didSucceed || settled.1.cancelHandler) = false := by
        rw [hcancelled.2, hready.cancelled hcancelled.1]
        rfl
      exact hsame
    · rw [List.mem_singleton.mp hmem]
      exact congrArg RegistryCall.allowClient hrun.client

/-- Without a rejection the end of an event admits the client, or refuses it when that is due. -/
theorem admits_endEvent (attempt : Attempt) {deferralsRef : Bool} (canceled alive : Bool)
    (hnot : ¬ (deferralsRef = true ∧ attempt.deferral.pending = true ∧ attempt.deferral.rejected = true)) :
    ∃ admitted : List RegistryCall, (∀ call ∈ admitted, call = .allowClient attempt.client) ∧
      ((attempt.endEvent deferralsRef canceled alive).2 = admitted ∨
        (attempt.endEvent deferralsRef canceled alive).2 = admitted ++ [.removeClient attempt.client] ∧
          (canceled = true ∨ deferralsRef = false ∨ attempt.earlyReject = true)) := by
  have hsettled : ∃ settled : Attempt × List RegistryCall, (({ attempt with
      deferral := (if deferralsRef then attempt.deferral.runEvents else (attempt.deferral, none)).1 } :
        Attempt).settle alive (if deferralsRef then attempt.deferral.runEvents else (attempt.deferral, none)).2) =
          settled ∧
      settled.1.client = attempt.client ∧ settled.1.earlyReject = attempt.earlyReject ∧
      ∀ call ∈ settled.2, call = .allowClient attempt.client := by
    refine ⟨_, rfl, ?_⟩
    generalize hresult : (if deferralsRef then attempt.deferral.runEvents else (attempt.deferral, none)) = result
    cases houtcome : result.2 with
    | none => exact ⟨rfl, rfl, fun _ hmem => nomatch hmem⟩
    | some outcome =>
      cases outcome with
      | resolve => exact ⟨rfl, rfl, fun _ hmem => List.mem_singleton.mp hmem⟩
      | reject =>
        rw [← hresult] at houtcome
        cases deferralsRef with
        | false => cases houtcome
        | true => exact absurd ⟨rfl, ((ClientDeferral.runEvents_rejected attempt.deferral).2 houtcome).1⟩ hnot
  obtain ⟨settled, hsettled, hclient, hearly, hadmitted⟩ := hsettled
  unfold Attempt.endEvent
  dsimp only
  rw [hsettled, ← hclient]
  rw [← hclient] at hadmitted
  split_ifs with hallow hreject hdeferred
  · refine ⟨settled.2, hadmitted, .inr ⟨rfl, ?_⟩⟩
    cases deferralsRef with
    | false => exact .inr (.inl rfl)
    | true =>
      rw [Bool.true_and, Bool.not_eq_false'] at hallow
      exact .inl hallow
  · exact ⟨settled.2, hadmitted, .inr ⟨rfl, .inr (.inr (hearly ▸ hreject))⟩⟩
  · exact ⟨settled.2, hadmitted, .inl rfl⟩
  · refine ⟨settled.2 ++ [.allowClient settled.1.client], fun call hmem => ?_, .inl rfl⟩
    obtain hmem | hmem := List.mem_append.mp hmem
    · exact hadmitted call hmem
    · exact List.mem_singleton.mp hmem

end Attempt

namespace ConnectWorld

open ClientDrops

variable {w w' : ConnectWorld} {c : ClientPtr}

/-- The drops are settled, the attempts are of clients of their own that were made, and a client that was removed
without a drop has left the table or was turned away by its attempt. -/
structure Settled (w : ConnectWorld) : Prop where
  drops : w.drops.Settled
  client_lt : ∀ i < w.nextAttempt, (w.attempts i).client < w.drops.registry.nextClient
  client_inj : ∀ i < w.nextAttempt, ∀ j < w.nextAttempt, (w.attempts i).client = (w.attempts j).client → i = j
  ready : ∀ i < w.nextAttempt, (w.attempts i).Ready
  removed : ∀ c, w.drops.removed c = true →
    w.drops.Left c ∨ ∃ i < w.nextAttempt, (w.attempts i).client = c ∧ (w.attempts i).gone = true

theorem settled_empty (oneSync bigMode : Bool) : (empty oneSync bigMode).Settled where
  drops :=
    { alive_lt := fun _ h => nomatch h
      table := fun _ _ h => nomatch h
      fresh := fun _ _ => ⟨rfl, rfl, rfl⟩
      counted := fun _ => rfl
      queued := fun _ h => nomatch h
      left := fun _ h => nomatch h.1
      present := fun _ _ h => nomatch h }
  client_lt _ h := nomatch h
  client_inj _ h := nomatch h
  ready _ h := nomatch h
  removed _ h := nomatch h

/-- A client that is present was not removed without a drop. -/
theorem Settled.removed_of_present (h : w.Settled) (hpresent : w.Present c)
    (hdropping : w.drops.isDropping c = false) :
    w.drops.removed c = false := by
  obtain hdrop | ⟨hleft, hgone⟩ := hpresent
  · rw [hdropping] at hdrop
    cases hdrop
  · by_contra hremoved
    obtain hold | ⟨i, hi, hclient, hturned⟩ := h.removed c (Bool.not_eq_false _ ▸ hremoved)
    · exact hleft hold
    · rw [hgone i hi hclient] at hturned
      cases hturned

theorem Settled.removesOnce (h : w.Settled) (hmay : w.MayRemove c) : w.drops.RemovesOnce c :=
  ⟨h.removed_of_present hmay.1, hmay.2⟩

/-- The client of the table is present, and alone. -/
theorem Settled.removesOnce_of_registered (h : w.Settled) (hreg : w.drops.registry.Registered c) :
    w.drops.RemovesOnce c := by
  refine ⟨fun _ => (h.drops.present _ c hreg).1, fun c' hfound => .inl ?_⟩
  have hfound : w.drops.registry.clients (w.drops.registry.objects c).guid = some c' := hfound
  exact (Option.some.inj (hreg.symm.trans hfound)).symm

/-- The step of one attempt. -/
theorem Settled.attempt (h : w.Settled) {i : Nat} (hi : i < w.nextAttempt) {result : Attempt × List RegistryCall}
    (hown : (w.attempts i).Own result)
    (honce : Loop.Along ClientDrops.call CallsOnce w.drops (w.planAttempt i result).calls) :
    Settled { w with
      drops := result.2.foldl ClientDrops.call w.drops
      attempts := Function.update w.attempts i result.1 } := by
  have hlt := h.client_lt i hi
  have hbounded : ∀ call ∈ result.2, w.drops.Bounded call := by
    intro call hmem
    obtain rfl | rfl := hown.calls call hmem
    · exact hlt
    · trivial
  have hle := nextClient_le_foldl w.drops result.2
  obtain ⟨hleft, hremoved⟩ := h.drops.own_calls hlt hown.calls honce
  have hclient (j : Nat) : (Function.update w.attempts i result.1 j).client = (w.attempts j).client := by
    rw [Function.update_apply]
    split
    · rename_i hj
      rw [hj, hown.client]
    · rfl
  have hgone (j : Nat) (hj : j < w.nextAttempt) (hgone : (w.attempts j).gone = true) :
      (Function.update w.attempts i result.1 j).gone = true := by
    rw [Function.update_apply]
    split
    · rename_i hj'
      rw [hj'] at hgone
      exact hown.gone (h.ready i hi) hgone
    · exact hgone
  refine ⟨h.drops.calls hbounded honce, fun j hj => ?_, fun j hj k hk => ?_, fun j hj => ?_, fun c hc => ?_⟩
  · exact (hclient j).symm ▸ lt_of_lt_of_le (h.client_lt j hj) hle
  · dsimp only
    rw [hclient, hclient]
    exact h.client_inj j hj k hk
  · dsimp only
    rw [Function.update_apply]
    split
    · exact hown.ready (h.ready i hi)
    · exact h.ready j hj
  · obtain hold | ⟨rfl, hmem⟩ := hremoved c hc
    · obtain hold | ⟨j, hj, hc, hturned⟩ := h.removed c hold
      · exact .inl (hleft c hold)
      · exact .inr ⟨j, hj, (hclient j).trans hc, hgone j hj hturned⟩
    · refine .inr ⟨i, hi, hclient i, ?_⟩
      dsimp only
      rw [Function.update_self]
      exact hown.removes hmem

/-- A step of one call, which removes no client but one that is in the table, or is dropping. -/
theorem Settled.one (h : w.Settled) {call : RegistryCall} (hmade : w.drops.Made call) (honce : w.drops.CallsOnce call)
    (hremoves : ∀ c, call = .removeClient c → w.drops.registry.Registered c ∨ w.drops.isDropping c = true) :
    Settled { w with drops := w.drops.call call } := by
  refine ⟨h.drops.call honce hmade, fun i hi => lt_of_lt_of_le (h.client_lt i hi) (nextClient_le w.drops call),
    h.client_inj, h.ready, fun c hc => ?_⟩
  obtain hold | ⟨hdropping, hwho⟩ := removed_call hc
  · exact (h.removed c hold).imp_left h.drops.left_call
  · obtain rfl | rfl | ⟨packet, r, rfl, hconnect⟩ := hwho
    · obtain hreg | hdrop := hremoves c rfl
      · exact .inl ⟨(h.drops.present _ c hreg).2, ClientRegistry.not_registered_removeClient _ c⟩
      · rw [hdropping] at hdrop
        cases hdrop
    · have hdrop := h.drops.queued c hmade
      rw [hdropping] at hdrop
      cases hdrop
    · refine .inl ⟨entered_call (h.drops.present _ c (ClientRegistry.connect_removed hconnect)).2, ?_⟩
      have hafter : (w.drops.call (.connect packet)).registry = r.removeClient c := by
        dsimp only [ClientDrops.call]
        rw [hconnect]
        rfl
      dsimp only
      rw [hafter]
      exact ClientRegistry.not_registered_removeClient r c

/-- A request begins: the client that the table has for the guid is dropped, and a new one is made. -/
theorem Settled.initConnect (h : w.Settled) (guid token : String) (gameNameMatch : Bool)
    (honce : Loop.Along ClientDrops.call CallsOnce w.drops
      (((w.drops.registry.getClientByGuid guid).map RegistryCall.dropClient).toList ++
        [RegistryCall.makeClient guid token ((0x10000 + w.tempIds) % 2 ^ 32)])) :
    Settled
      { drops := (((w.drops.registry.getClientByGuid guid).map RegistryCall.dropClient).toList ++
          [RegistryCall.makeClient guid token ((0x10000 + w.tempIds) % 2 ^ 32)]).foldl ClientDrops.call w.drops
        attempts := Function.update w.attempts w.nextAttempt
          { client := w.drops.registry.nextClient, phase := if gameNameMatch then .authenticating else .over }
        nextAttempt := w.nextAttempt + 1
        tempIds := w.tempIds + 1 } := by
  generalize hcalls : ((w.drops.registry.getClientByGuid guid).map RegistryCall.dropClient).toList ++
    [RegistryCall.makeClient guid token ((0x10000 + w.tempIds) % 2 ^ 32)] = calls at honce ⊢
  have hnew : w.drops.registry.nextClient < (calls.foldl ClientDrops.call w.drops).registry.nextClient := by
    rw [← hcalls, List.foldl_append]
    exact Nat.lt_succ_of_le (nextClient_le_foldl w.drops _)
  have hcall : ∀ call ∈ calls, (∃ c, w.drops.registry.clients guid = some c ∧ call = .dropClient c) ∨
      ∃ netId, call = .makeClient guid token netId := by
    intro call hmem
    rw [← hcalls, List.mem_append, List.mem_singleton, Option.mem_toList] at hmem
    obtain hdrop | rfl := hmem
    · obtain ⟨c, hc, rfl⟩ := Option.map_eq_some_iff.mp hdrop
      exact .inl ⟨c, hc, rfl⟩
    · exact .inr ⟨_, rfl⟩
  have hbounded : ∀ call ∈ calls, w.drops.Bounded call := by
    intro call hmem
    obtain ⟨c, hc, rfl⟩ | ⟨netId, rfl⟩ := hcall call hmem
    · exact (h.drops.table guid c hc).2
    · trivial
  have hother (j : Nat) (hj : j < w.nextAttempt) (attempt : Attempt) :
      Function.update w.attempts w.nextAttempt attempt j = w.attempts j := Function.update_of_ne hj.ne ..
  have hlast : ∀ j < w.nextAttempt + 1, j = w.nextAttempt ∨ j < w.nextAttempt := fun j hj => by omega
  refine ⟨h.drops.calls hbounded honce, fun j hj => ?_, fun j hj k hk heq => ?_, fun j hj => ?_, fun c hc => ?_⟩
  · dsimp only
    obtain rfl | hj := hlast j hj
    · rw [Function.update_self]
      exact hnew
    · rw [hother j hj]
      exact lt_of_lt_of_le (h.client_lt j hj) (nextClient_le_foldl w.drops _)
  · dsimp only at heq
    obtain rfl | hj := hlast j hj
    · obtain rfl | hk := hlast k hk
      · rfl
      · rw [Function.update_self, hother k hk] at heq
        exact absurd heq (h.client_lt k hk).ne'
    · obtain rfl | hk := hlast k hk
      · rw [Function.update_self, hother j hj] at heq
        exact absurd heq (h.client_lt j hj).ne
      · rw [hother j hj, hother k hk] at heq
        exact h.client_inj j hj k hk heq
  · dsimp only
    obtain rfl | hj := hlast j hj
    · rw [Function.update_self]
      exact ⟨fun _ => ⟨rfl, rfl⟩, fun hcancelled => nomatch hcancelled⟩
    · rw [hother j hj]
      exact h.ready j hj
  · have hspares : ∀ call ∈ calls, Spares call := by
      intro call hmem
      obtain ⟨b, -, rfl⟩ | ⟨netId, rfl⟩ := hcall call hmem
      · exact trivial
      · exact trivial
    obtain ⟨hleft, hremoved⟩ := h.drops.foldl_removed hbounded honce hspares c hc
    obtain hold | ⟨j, hj, hclient, hgone⟩ := h.removed c hremoved
    · exact .inl (hleft c hold)
    · refine .inr ⟨j, Nat.lt_succ_of_lt hj, ?_⟩
      dsimp only
      rw [hother j hj]
      exact ⟨hclient, hgone⟩

/-- One removal of a client that may be removed, if it is alive. -/
theorem Settled.along_remove (h : w.Settled) {p : Prop} [Decidable p] (hmay : p → w.MayRemove c) :
    Loop.Along ClientDrops.call CallsOnce w.drops (if p then [.removeClient c] else []) := by
  split
  · exact ⟨h.removesOnce (hmay ‹_›), trivial⟩
  · trivial

/-- The end of an event, by what becomes of the deferral: a rejection removes the client, and the refusal that
follows it removes it again, which only a client that is dropping bears. -/
theorem Settled.along_endEvent (h : w.Settled) {i : Nat} {deferralsRef canceled alive : Bool} (hi : i < w.nextAttempt)
    (hphase : (w.attempts i).phase = .inEvent deferralsRef) (hok : w.Orderly (.endEvent i canceled)) :
    Loop.Along ClientDrops.call CallsOnce w.drops ((w.attempts i).endEvent deferralsRef canceled alive).2 := by
  have hown : (w.attempts i).Own ((w.attempts i).endEvent deferralsRef canceled alive) :=
    Attempt.own_endEvent hphase (h.ready i hi)
  obtain ⟨hdropping, hmay⟩ := hok
  generalize w.attempts i = attempt at hown hphase hdropping hmay ⊢
  rw [hphase] at hdropping hmay
  by_cases hrejecting : deferralsRef = true ∧ attempt.deferral.pending = true ∧ attempt.deferral.rejected = true
  · obtain ⟨rfl, hreject⟩ := hrejecting
    exact along_of_dropping (h.removesOnce (hmay (.inl ⟨rfl, hreject⟩))) (hdropping ⟨rfl, hreject⟩) hown.calls
  · have hadmits := attempt.admits_endEvent canceled alive hrejecting
    obtain ⟨admitted, hadmitted, hcalls | ⟨hcalls, hrefused⟩⟩ := hadmits
    · rw [hcalls]
      exact along_admitted hadmitted
    · rw [hcalls]
      refine along_remove_last hadmitted (h.removesOnce (hmay (.inr ?_)))
      exact hrefused.imp_right (Or.imp_left (congrArg AttemptPhase.inEvent))

/-- The calls of a step that meets the condition remove no client twice. -/
theorem Settled.callsOnce (h : w.Settled) {a : Action} (hok : w.Orderly a) {p : Plan} (hplan : w.plan a = some p) :
    Loop.Along ClientDrops.call CallsOnce w.drops p.calls := by
  cases a with
  | initConnect guid token gameNameMatch =>
    cases hplan
    dsimp only
    cases hguid : w.drops.registry.getClientByGuid guid with
    | none => exact ⟨trivial, trivial⟩
    | some c => exact ⟨fun _ => (h.drops.present guid c hguid).1, trivial, trivial⟩
  | authFails i =>
    obtain ⟨-, heq⟩ := Option.ite_none_right_eq_some.mp hplan
    cases heq
    exact h.along_remove hok
  | done i refused =>
    obtain ⟨-, heq⟩ := Option.ite_none_right_eq_some.mp hplan
    cases heq
    dsimp only [planAttempt]
    split_ifs with hdead hrefused
    · trivial
    · exact ⟨h.removesOnce (hok hrefused (Bool.not_eq_false _ ▸ hdead)), trivial⟩
    · trivial
  | beginEvent i =>
    obtain ⟨-, heq⟩ := Option.ite_none_right_eq_some.mp hplan
    cases heq
    trivial
  | deferral i call =>
    obtain ⟨-, heq⟩ := Option.ite_none_right_eq_some.mp hplan
    cases heq
    dsimp only [planAttempt, Attempt.receive]
    split_ifs with hover
    · trivial
    · rw [not_or, Bool.not_eq_false, Bool.not_eq_true] at hover
      cases hresult : ((w.attempts i).deferral.receive call).2 with
      | none => trivial
      | some result =>
        cases result with
        | resolve => exact ⟨trivial, trivial⟩
        | reject =>
          exact h.along_remove fun halive => hok hover.1 hover.2 (ClientDeferral.receive_reject hresult).1 halive
  | endEvent i canceled =>
    unfold ConnectWorld.plan at hplan
    dsimp only at hplan
    split at hplan
    · rename_i deferralsRef hphase
      obtain ⟨hi, heq⟩ := Option.ite_none_right_eq_some.mp hplan
      cases heq
      exact h.along_endEvent hi hphase hok
    · cases hplan
  | cancel i =>
    obtain ⟨-, heq⟩ := Option.ite_none_right_eq_some.mp hplan
    cases heq
    exact h.along_remove fun hremoves => hok hremoves.1 hremoves.2
  | connect packet =>
    cases hplan
    refine ⟨fun c r hconnect => h.removesOnce_of_registered ?_, trivial⟩
    have hfound := ClientRegistry.connect_removed hconnect
    rw [ClientRegistry.Registered, (h.drops.table _ c hfound).1]
    exact hfound
  | dropClient c =>
    obtain ⟨-, heq⟩ := Option.ite_none_right_eq_some.mp hplan
    cases heq
    exact ⟨h.removed_of_present hok, trivial⟩
  | dropClientInternal c =>
    obtain ⟨hc, heq⟩ := Option.ite_none_right_eq_some.mp hplan
    cases heq
    refine ⟨⟨fun hnot => ?_, hok⟩, trivial⟩
    have hdropping := h.drops.queued c hc
    rw [hnot] at hdropping
    cases hdropping
  | removeClient c =>
    obtain ⟨-, heq⟩ := Option.ite_none_right_eq_some.mp hplan
    cases heq
    obtain hreg | ⟨hdropping, halone⟩ := hok
    · exact ⟨h.removesOnce_of_registered hreg, trivial⟩
    · refine ⟨⟨fun hnot => ?_, halone⟩, trivial⟩
      rw [hnot] at hdropping
      cases hdropping
  | destroy c =>
    obtain ⟨-, heq⟩ := Option.ite_none_right_eq_some.mp hplan
    cases heq
    exact ⟨trivial, trivial⟩

/-- A step that meets the condition settles again. -/
theorem Settled.step (h : w.Settled) {a : Action} (hok : w.Orderly a) (hstep : w.step a = some w') : w'.Settled := by
  obtain ⟨p, hplan, rfl⟩ := Option.map_eq_some_iff.mp hstep
  have honce := h.callsOnce hok hplan
  cases a with
  | initConnect guid token gameNameMatch =>
    cases hplan
    exact h.initConnect guid token gameNameMatch honce
  | authFails i =>
    obtain ⟨⟨hi, -⟩, heq⟩ := Option.ite_none_right_eq_some.mp hplan
    cases heq
    refine h.attempt hi (Attempt.own_refused _ fun call hmem => .inl ?_) honce
    split at hmem
    · exact List.mem_singleton.mp hmem
    · cases hmem
  | done i refused =>
    obtain ⟨⟨hi, hphase⟩, heq⟩ := Option.ite_none_right_eq_some.mp hplan
    cases heq
    refine h.attempt hi ?_ honce
    split_ifs
    · exact Attempt.own_phase (by rw [hphase]; exact nofun) nofun
    · exact Attempt.own_refused _ fun _ hmem => .inl (List.mem_singleton.mp hmem)
    · exact Attempt.own_passed hphase
  | beginEvent i =>
    obtain ⟨⟨hi, hphase⟩, heq⟩ := Option.ite_none_right_eq_some.mp hplan
    cases heq
    have hown : (w.attempts i).Own ({ w.attempts i with phase := .inEvent (w.attempts i).deferrals }, []) :=
      Attempt.own_phase (by rw [hphase]; exact nofun) nofun
    exact h.attempt hi hown honce
  | deferral i call =>
    obtain ⟨hi, heq⟩ := Option.ite_none_right_eq_some.mp hplan
    cases heq
    exact h.attempt hi (Attempt.own_receive _ _ call) honce
  | endEvent i canceled =>
    unfold ConnectWorld.plan at hplan
    dsimp only at hplan
    split at hplan
    · rename_i deferralsRef hphase
      obtain ⟨hi, heq⟩ := Option.ite_none_right_eq_some.mp hplan
      cases heq
      exact h.attempt hi (Attempt.own_endEvent hphase (h.ready i hi)) honce
    · cases hplan
  | cancel i =>
    obtain ⟨⟨hi, hhandler⟩, heq⟩ := Option.ite_none_right_eq_some.mp hplan
    cases heq
    exact h.attempt hi (Attempt.own_cancel hhandler) honce
  | connect packet =>
    cases hplan
    have hmade : w.drops.Made (.connect packet) := trivial
    exact h.one hmade honce.1 fun _ heq => nomatch heq
  | dropClient c =>
    obtain ⟨hc, heq⟩ := Option.ite_none_right_eq_some.mp hplan
    cases heq
    have hmade : w.drops.Made (.dropClient c) := h.drops.alive_lt c hc
    exact h.one hmade honce.1 fun _ heq => nomatch heq
  | dropClientInternal c =>
    obtain ⟨hc, heq⟩ := Option.ite_none_right_eq_some.mp hplan
    cases heq
    have hmade : w.drops.Made (.dropClientInternal c) := hc
    exact h.one hmade honce.1 fun _ heq => nomatch heq
  | removeClient c =>
    obtain ⟨hc, heq⟩ := Option.ite_none_right_eq_some.mp hplan
    cases heq
    have hmade : w.drops.Made (.removeClient c) := h.drops.alive_lt c hc
    refine h.one hmade honce.1 fun c' heq => ?_
    cases heq
    exact hok.imp_right And.left
  | destroy c =>
    obtain ⟨-, heq⟩ := Option.ite_none_right_eq_some.mp hplan
    cases heq
    have hmade : w.drops.Made (.destroy c) := trivial
    exact h.one hmade honce.1 fun _ heq => nomatch heq

/-- In a run whose steps meet the condition, no client's `OnDrop` is called twice, and that of a client that has
left was called, or is about to be: the attempt of a client that was removed knows that it has turned it away. -/
theorem run_once (oneSync bigMode : Bool) (acts : List Action) (w : ConnectWorld)
    (hrun : Transition.Run step Orderly (empty oneSync bigMode) acts w) : w.drops.Once := by
  have h := hrun.invariant Settled (settled_empty oneSync bigMode) fun h hok hstep => h.step hok hstep
  exact h.drops.once

/-- A client that is accepted when its deferral is done, and dropped. -/
theorem run_once_deferred : ∃ w : ConnectWorld, w.drops.onDrops 0 = 1 ∧ w.drops.Left 0 ∧ w.drops.Once := by
  have hcheck : ∀ (w : ConnectWorld) (a : Action), decide (w.Orderly a) = true → w.Orderly a :=
    fun _ _ h => of_decide_eq_true h
  have hend : ((Transition.exec (fun w a => if decide (Orderly w a) then step w a else none) (empty true false)
      [.initConnect "guid" "token" true, .done 0 false, .beginEvent 0, .deferral 0 (.defer "cards"), .endEvent 0 false,
        .deferral 0 (.done "cards" false), .connect { guid := "guid", token := "token", peer := 7 }, .dropClient 0,
        .dropClientInternal 0]).any fun w => decide (w.drops.onDrops 0 = 1 ∧ w.drops.Left 0)) = true := by
    decide +kernel
  obtain ⟨w, hrun, hw⟩ := Transition.exists_checked hcheck hend
  obtain ⟨honce, hleft⟩ := of_decide_eq_true hw
  exact ⟨w, honce, hleft, run_once true false _ w hrun⟩

/-- A client that a script rejects in its event is removed by the callback of the deferral, and again by that of the
event. -/
theorem run_rejected : ∃ (acts : List Action) (w : ConnectWorld),
    Transition.Run step (fun _ _ => True) (empty true false) acts w ∧ w.drops.onDrops 0 = 2 ∧ ¬ w.drops.Once := by
  have hend : ((Transition.exec step (empty true false)
      [.initConnect "guid" "token" true, .done 0 false, .beginEvent 0, .deferral 0 (.done "cards" true),
        .endEvent 0 false]).any fun w => w.drops.onDrops 0 = 2) = true := by decide +kernel
  obtain ⟨w, hrun, hw⟩ := Transition.exists_run hend
  have htwice : w.drops.onDrops 0 = 2 := of_decide_eq_true hw
  refine ⟨_, w, hrun, htwice, fun h => ?_⟩
  have honce := (h 0).1
  omega

end ConnectWorld

end fx
