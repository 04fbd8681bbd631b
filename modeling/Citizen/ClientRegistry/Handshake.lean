import Citizen.ClientRegistry.Coherence

namespace fx

/-- A type-1 packet, and the peer it comes from. -/
structure ConnectPacket where
  peer : Nat
  guid : String
  token : String

namespace ClientRegistry

/-- `ProcessPacket` of a type-1 packet up to the `RemoveClient` that it may end with, without what is sent for it. -/
def connect (r : ClientRegistry) (packet : ConnectPacket) : Option (Option ClientPtr × ClientRegistry) :=
  if (r.getClientByPeer packet.peer).isSome then some (none, r)
  else
    match r.getClientByGuid packet.guid with
    | none => some (none, r)
    | some c =>
      if packet.token ≠ (r.objects c).connectionToken then some (some c, r)
      else if (r.objects c).passedValidation = false then some (some c, r)
      else
        let r := r.setPeer c packet.peer
        if r.oneSync ∧ (r.objects c).slotId = noSlot then some (some c, r)
        else if noFinalNetId ≤ (r.objects c).netId then (r.handleConnectingClient c).map (none, ·)
        else some (none, r)

/-- `ProcessPacket` of a type-1 packet. -/
def processConnect (r : ClientRegistry) (packet : ConnectPacket) : Option ClientRegistry :=
  (r.connect packet).map fun result => match result.1 with
    | none => result.2
    | some c => result.2.removeClient c

/-- The client is as registered as before, with the same peer, net id and slot. -/
structure Spares (r r' : ClientRegistry) (c : ClientPtr) : Prop where
  registered : r'.Registered c
  peer : (r'.objects c).peer = (r.objects c).peer
  netId : (r'.objects c).netId = (r.objects c).netId
  slotId : (r'.objects c).slotId = (r.objects c).slotId

/-- A packet with another token spares the client of its guid. -/
def SparesOthers (r : ClientRegistry) (packet : ConnectPacket) : Prop :=
  ∀ c r', r.getClientByGuid packet.guid = some c → packet.token ≠ (r.objects c).connectionToken →
    r.processConnect packet = some r' → r.Spares r' c

/-- What a client was made with is the same. -/
structure SameClient (r r' : ClientRegistry) (c : ClientPtr) : Prop where
  connectionToken : (r'.objects c).connectionToken = (r.objects c).connectionToken
  passedValidation : (r'.objects c).passedValidation = (r.objects c).passedValidation

/-- The client has the peer that it had, or one that has shown its token, after its validation. -/
def Presented (r r' : ClientRegistry) (packets : List ConnectPacket) (c : ClientPtr) : Prop :=
  (r'.objects c).peer = (r.objects c).peer ∨
    ∃ packet ∈ packets, (r'.objects c).peer = some packet.peer ∧ packet.token = (r.objects c).connectionToken ∧
      (r.objects c).passedValidation = true

variable {r r' : ClientRegistry} {c : ClientPtr}

theorem not_registered_removeClient (r : ClientRegistry) (c : ClientPtr) : ¬ (r.removeClient c).Registered c := by
  have hguid : ((r.removeClient c).objects c).guid = (r.objects c).guid := by
    simp only [removeClient, modify, Function.update_self]
  have hgone : (r.removeClient c).clients (r.objects c).guid = none := Function.update_self ..
  intro hreg
  rw [Registered, hguid, hgone] at hreg
  cases hreg

/-- A packet from a peer of no client spares the client of its guid exactly when it has the client's token. -/
theorem sparesOthers_iff {packet : ConnectPacket} (hpeer : r.getClientByPeer packet.peer = none) :
    r.SparesOthers packet ↔
      ∀ c, r.getClientByGuid packet.guid = some c → packet.token = (r.objects c).connectionToken := by
  constructor
  · intro hspares c hguid
    by_contra htoken
    have hconnect : r.connect packet = some (some c, r) := by
      unfold connect
      rw [hpeer, hguid]
      exact (if_neg Bool.false_ne_true).trans (if_pos htoken)
    have hremoved : r.processConnect packet = some (r.removeClient c) := by
      rw [processConnect, hconnect]
      rfl
    exact not_registered_removeClient r c (hspares c _ hguid htoken hremoved).registered
  · intro htoken c r' hguid hother
    exact absurd (htoken c hguid) hother

/-- A removal leaves a client's token, its validation and its peer. -/
theorem removeClient_objects (r : ClientRegistry) (b c : ClientPtr) :
    SameClient r (r.removeClient b) c ∧ ((r.removeClient b).objects c).peer = (r.objects c).peer := by
  simp only [removeClient, modify, Function.update_apply]
  by_cases hc : c = b
  · subst hc
    exact ⟨⟨by simp only [Function.update_self], by simp only [Function.update_self]⟩, by simp only [if_true]⟩
  · exact ⟨⟨by simp only [Function.update_of_ne hc], by simp only [Function.update_of_ne hc]⟩,
      by simp only [if_neg hc]⟩

theorem setNetId_objects (r : ClientRegistry) (b c : ClientPtr) (netId : Nat) :
    SameClient r (r.setNetId b netId) c ∧ ((r.setNetId b netId).objects c).peer = (r.objects c).peer := by
  simp only [setNetId, modify, Function.update_apply]
  by_cases hc : c = b
  · subst hc
    exact ⟨⟨by simp only [Function.update_self], by simp only [Function.update_self]⟩, by simp only [if_true]⟩
  · exact ⟨⟨by simp only [Function.update_of_ne hc], by simp only [Function.update_of_ne hc]⟩,
      by simp only [if_neg hc]⟩

theorem setPeer_objects (r : ClientRegistry) (b c : ClientPtr) (peer : Nat) :
    SameClient r (r.setPeer b peer) c ∧
      ((r.setPeer b peer).objects c).peer = if c = b then some peer else (r.objects c).peer := by
  obtain ⟨slotId, clientsBySlotId, heq, -⟩ := setPeer_eq r b peer
  rw [heq]
  by_cases hc : c = b
  · subst hc
    exact ⟨⟨by simp only [Function.update_self], by simp only [Function.update_self]⟩,
      by simp only [Function.update_self, if_true]⟩
  · exact ⟨⟨by simp only [Function.update_of_ne hc], by simp only [Function.update_of_ne hc]⟩,
      by simp only [Function.update_of_ne hc, if_neg hc]⟩

theorem SameClient.refl (r : ClientRegistry) (c : ClientPtr) : SameClient r r c := ⟨rfl, rfl⟩

theorem SameClient.trans {r'' : ClientRegistry} (h : SameClient r r' c) (h' : SameClient r' r'' c) :
    SameClient r r'' c :=
  ⟨h'.connectionToken.trans h.connectionToken, h'.passedValidation.trans h.passedValidation⟩

/-- Up to the removal, a packet leaves the clients what they were made with, and gives a peer only to the client whose
token it shows. -/
theorem connect_objects {packet : ConnectPacket} {removed : Option ClientPtr}
    (h : r.connect packet = some (removed, r')) (c : ClientPtr) : SameClient r r' c ∧ Presented r r' [packet] c := by
  have hsame : SameClient r r c ∧ Presented r r [packet] c := ⟨.refl r c, .inl rfl⟩
  unfold connect at h
  split at h
  · cases h
    exact hsame
  · split at h
    · cases h
      exact hsame
    · rename_i b _
      dsimp only at h
      split_ifs at h with htoken hvalid hslot hnetId
      · cases h
        exact hsame
      · cases h
        exact hsame
      all_goals
        obtain ⟨hset, hpeer⟩ := setPeer_objects r b c packet.peer
        have hpresented : Presented r (r.setPeer b packet.peer) [packet] c := by
          rw [Presented, hpeer]
          split
          · rename_i hc
            rw [hc]
            exact .inr ⟨packet, List.mem_singleton_self packet, rfl, not_not.mp htoken, Bool.not_eq_false _ ▸ hvalid⟩
          · exact .inl rfl
      · cases h
        exact ⟨hset, hpresented⟩
      · obtain ⟨r'', hconnecting, heq⟩ := Option.map_eq_some_iff.mp h
        cases heq
        obtain ⟨netId, -, rfl⟩ := Option.map_eq_some_iff.mp hconnecting
        obtain ⟨hsame', hkept⟩ := setNetId_objects (r.setPeer b packet.peer) b c netId
        refine ⟨hset.trans ⟨hsame'.connectionToken, hsame'.passedValidation⟩, ?_⟩
        rw [Presented]
        dsimp only
        rw [hkept]
        exact hpresented
      · cases h
        exact ⟨hset, hpresented⟩

/-- A packet leaves the clients what they were made with, and gives a peer only to the client whose token it shows. -/
theorem processConnect_objects {packet : ConnectPacket} (h : r.processConnect packet = some r') (c : ClientPtr) :
    SameClient r r' c ∧ Presented r r' [packet] c := by
  obtain ⟨⟨removed, r''⟩, hconnect, rfl⟩ := Option.map_eq_some_iff.mp h
  obtain ⟨hsame, hpresented⟩ := connect_objects hconnect c
  cases removed with
  | none => exact ⟨hsame, hpresented⟩
  | some b =>
    obtain ⟨hremove, hpeer⟩ := removeClient_objects r'' b c
    refine ⟨hsame.trans hremove, ?_⟩
    rw [Presented]
    dsimp only
    rw [hpeer]
    exact hpresented

/-- After a run of packets, a client has the peer that it had, or one that has shown its token after its validation. -/
theorem run_presented {packets : List ConnectPacket}
    (hrun : Transition.Run processConnect (fun _ _ => True) r packets r') (c : ClientPtr) :
    SameClient r r' c ∧ Presented r r' packets c := by
  induction hrun with
  | nil r => exact ⟨.refl r c, .inl rfl⟩
  | cons _ hstep _ ih =>
    obtain ⟨hfirst, hpeer⟩ := processConnect_objects hstep c
    obtain ⟨hrest, hpeer'⟩ := ih
    refine ⟨hfirst.trans hrest, ?_⟩
    obtain hsame | ⟨packet, hmem, hnew, htoken, hvalid⟩ := hpeer'
    · obtain hsame' | ⟨packet, hmem, hnew, htoken, hvalid⟩ := hpeer
      · exact .inl (hsame.trans hsame')
      · refine .inr ⟨packet, ?_, hsame.trans hnew, htoken, hvalid⟩
        rw [List.mem_singleton.mp hmem]
        exact List.mem_cons_self
    · refine .inr ⟨packet, List.mem_cons_of_mem _ hmem, hnew, ?_, ?_⟩
      · rw [htoken, hfirst.connectionToken]
      · rw [← hfirst.passedValidation, hvalid]

/-- A packet from a peer of no client spares the client of its guid exactly when it shows the client's token, and in
a run of packets a client only gets a peer that has shown its token after its validation. -/
theorem handshake_spares_iff (r : ClientRegistry) :
    (∀ packet : ConnectPacket, r.getClientByPeer packet.peer = none →
      (r.SparesOthers packet ↔
        ∀ c, r.getClientByGuid packet.guid = some c → packet.token = (r.objects c).connectionToken)) ∧
    ∀ (r' : ClientRegistry) (packets : List ConnectPacket),
      Transition.Run processConnect (fun _ _ => True) r packets r' → ∀ c, Presented r r' packets c :=
  ⟨fun _ hpeer => sparesOthers_iff hpeer, fun _ _ hrun c => (run_presented hrun c).2⟩

/-- A client that plays, with net id 1, slot 128 and peer 2. -/
def playing : ClientRegistry :=
  let made := ((empty true false).makeClient "g").modify 0 fun client => { client with passedValidation := true }
  ((made.setConnectionToken 0 "t").setNetId 0 1).setPeer 0 2

/-- A packet for an unknown guid, and the client's own packet from another peer. -/
def reconnectPackets : List ConnectPacket := [⟨4, "h", "x"⟩, ⟨3, "g", "t"⟩]

theorem handshake_spares_token : playing.SparesOthers ⟨3, "g", "t"⟩ ∧
    ∃ r', Transition.Run processConnect (fun _ _ => True) playing reconnectPackets r' ∧ (r'.objects 0).peer = some 3 ∧
      (r'.objects 0).slotId = 128 ∧ Presented playing r' reconnectPackets 0 := by
  obtain ⟨hspares, hpresented⟩ := handshake_spares_iff playing
  refine ⟨(hspares ⟨3, "g", "t"⟩ (by decide +kernel)).mpr fun c hc => ?_, ?_⟩
  · cases hc
    decide +kernel
  · have hend : ((Transition.exec processConnect playing reconnectPackets).any fun r' =>
        decide ((r'.objects 0).peer = some 3 ∧ (r'.objects 0).slotId = 128)) = true := by decide +kernel
    obtain ⟨r', hrun, hr'⟩ := Transition.exists_run hend
    obtain ⟨hpeer, hslot⟩ := of_decide_eq_true hr'
    exact ⟨r', hrun, hpeer, hslot, hpresented r' reconnectPackets hrun 0⟩

/-- A packet that only knows the guid of a client removes it. -/
theorem handshake_removes : playing.getClientByPeer 3 = none ∧ ¬ playing.SparesOthers ⟨3, "g", "x"⟩ := by
  have hpeer : playing.getClientByPeer 3 = none := by decide +kernel
  refine ⟨hpeer, fun hspares => ?_⟩
  have htoken := (sparesOthers_iff hpeer).mp hspares 0 rfl
  exact absurd htoken (by decide +kernel)

end ClientRegistry

end fx
