import Citizen.Lib.Transition

open Transition

namespace fx

/-- `ConnectionUsage`. The count is a `size_t`. -/
structure ConnectionUsage where
  address : BitVec 128 := 0
  count : Nat := 0

/-- The maps of the server. A peer is the address of its `ENetPeer`, and `peerId` is what its `data` was set to. -/
structure GameServerNetImplENet where
  connectionUsage : BitVec 32 → Option ConnectionUsage := fun _ => none
  basePeerId : Int := 1
  peerId : Nat → Int := fun _ => 0
  peerHandles : Int → Option Nat := fun _ => none
  peerData : Int → Option (BitVec 32) := fun _ => none

namespace GameServerNetImplENet

/-- `m_connectionUsage[data]`. -/
def usage (s : GameServerNetImplENet) (data : BitVec 32) : ConnectionUsage := (s.connectionUsage data).getD {}

/-- `OnValidateData`. `known` is the answer of `HasClientByConnectionTokenHash`. -/
def onValidateData (s : GameServerNetImplENet) (known : Bool) (address : BitVec 128) (data : BitVec 32) :
    Bool × GameServerNetImplENet :=
  if known then
    let usage := s.usage data
    let valid := usage.count = 0 ∨ ¬ (3 < usage.count) ∧ usage.address = address
    let usage := if usage.count = 0 then { usage with address } else usage
    let usage := { usage with count := (usage.count + 1) % 2 ^ 64 }
    (decide valid, { s with connectionUsage := Function.update s.connectionUsage data (some usage) })
  else (false, s)

/-- `ENET_EVENT_TYPE_CONNECT`. `emplace` keeps an entry that is there. -/
def onConnect (s : GameServerNetImplENet) (peer : Nat) (data : BitVec 32) : GameServerNetImplENet :=
  let peerId := s.basePeerId + 1
  { s with
    basePeerId := peerId
    peerId := Function.update s.peerId peer peerId
    peerHandles := Function.update s.peerHandles peerId (some ((s.peerHandles peerId).getD peer))
    peerData := Function.update s.peerData peerId (some ((s.peerData peerId).getD data))
    connectionUsage := Function.update s.connectionUsage data (some { s.usage data with count := 9999 }) }

/-- `OnDisconnect`. -/
def onDisconnect (s : GameServerNetImplENet) (peer : Nat) : GameServerNetImplENet :=
  let peerId := s.peerId peer
  let s := { s with peerHandles := Function.update s.peerHandles peerId none }
  match s.peerData peerId with
  | none => s
  | some data =>
    { s with
      connectionUsage := Function.update s.connectionUsage data none
      peerData := Function.update s.peerData peerId none }

end GameServerNetImplENet

/-- The server, the peers that ENet has connected with their connect data, and for the record the addresses of the
accepted attempts since the last peer with their token went away. -/
structure TokenWorld where
  server : GameServerNetImplENet := {}
  connected : List (Nat × BitVec 32) := []
  accepted : BitVec 32 → List (BitVec 128) := fun _ => []

inductive TokenEvent where
  | onValidateData (known : Bool) (address : BitVec 128) (data : BitVec 32)
  | connect (peer : Nat) (data : BitVec 32)
  | disconnect (peer : Nat)
  | resetPeer (peerId : Int)

namespace TokenWorld

/-- A peer is gone, by a disconnect or by `enet_peer_reset`. -/
def leave (w : TokenWorld) (peer : Nat) : TokenWorld :=
  let connected := w.connected.filter (·.1 ≠ peer)
  { server := w.server.onDisconnect peer
    connected
    accepted := fun data =>
      if data ∈ w.connected.map Prod.snd ∧ data ∉ connected.map Prod.snd then [] else w.accepted data }

/-- ENet connects peers that are not connected, and disconnects those that are. -/
def step (w : TokenWorld) : TokenEvent → Option TokenWorld
  | .onValidateData known address data =>
    let (valid, server) := w.server.onValidateData known address data
    some { w with
      server
      accepted := if valid then Function.update w.accepted data (address :: w.accepted data) else w.accepted }
  | .connect peer data =>
    if peer ∈ w.connected.map Prod.fst then none
    else some { w with server := w.server.onConnect peer data, connected := (peer, data) :: w.connected }
  | .disconnect peer => if peer ∈ w.connected.map Prod.fst then some (w.leave peer) else none
  | .resetPeer peerId =>
    match w.server.peerHandles peerId with
    | none => some w
    | some peer => some (w.leave peer)

/-- While a peer is connected, no attempt with its token is accepted, and up to then at most four were, all of one
address. -/
structure AdmitsOne (w : TokenWorld) : Prop where
  closed : ∀ peer data, (peer, data) ∈ w.connected → ∀ known address,
    (w.server.onValidateData known address data).1 = false
  few : ∀ data, (w.accepted data).length ≤ 4
  same : ∀ data, ∀ a ∈ w.accepted data, ∀ b ∈ w.accepted data, a = b

/-- No peer of the same token is connected. -/
def Alone (w : TokenWorld) (peer : Nat) : Prop :=
  ∀ data other, (peer, data) ∈ w.connected → (other, data) ∈ w.connected → other = peer

/-- A peer goes away when it is the only one of its token, and no counter overflows. -/
def Allowed (w : TokenWorld) : TokenEvent → Prop
  | .onValidateData known _ data => known = true → (w.server.usage data).count + 1 < 2 ^ 64
  | .connect _ _ => w.server.basePeerId + 1 < 2 ^ 31
  | .disconnect peer => w.Alone peer
  | .resetPeer peerId => ∀ peer, w.server.peerHandles peerId = some peer → w.Alone peer

/-- The maps agree with the peers that are connected, and a token's count with its accepted attempts. -/
structure Sound (w : TokenWorld) : Prop where
  handle : ∀ peer data, (peer, data) ∈ w.connected →
    w.server.peerHandles (w.server.peerId peer) = some peer ∧ w.server.peerData (w.server.peerId peer) = some data
  of_handle : ∀ peerId peer, w.server.peerHandles peerId = some peer →
    w.server.peerId peer = peerId ∧ peerId ≤ w.server.basePeerId ∧ peer ∈ w.connected.map Prod.fst
  of_data : ∀ peerId data, w.server.peerData peerId = some data → peerId ≤ w.server.basePeerId
  spent : ∀ peer data, (peer, data) ∈ w.connected → 3 < (w.server.usage data).count
  few : ∀ data, (w.accepted data).length ≤ min 4 (w.server.usage data).count
  same : ∀ data, ∀ a ∈ w.accepted data, ∀ b ∈ w.accepted data, a = b
  first : ∀ data, (w.server.usage data).count ≤ 3 → ∀ a ∈ w.accepted data, a = (w.server.usage data).address

variable {w w' : TokenWorld}

theorem start_sound : Sound {} where
  handle _ _ hmem := nomatch hmem
  of_handle _ _ hhandle := nomatch hhandle
  of_data _ _ hdata := nomatch hdata
  spent _ _ hmem := nomatch hmem
  few _ := Nat.zero_le _
  same _ _ hmem := nomatch hmem
  first _ _ _ hmem := nomatch hmem

theorem Sound.admitsOne (hsound : Sound w) : AdmitsOne w := by
  refine ⟨fun peer data hmem known address => ?_, fun data => (hsound.few data).trans (Nat.min_le_left _ _),
    hsound.same⟩
  have hspent := hsound.spent peer data hmem
  unfold GameServerNetImplENet.onValidateData
  cases known with
  | false => rfl
  | true =>
    rw [if_pos rfl]
    simp only [decide_eq_false_iff_not]
    omega

section Attempt

variable {known : Bool} {address : BitVec 128} {data : BitVec 32}

theorem usage_onValidateData (s : GameServerNetImplENet) (hroom : (s.usage data).count + 1 < 2 ^ 64)
    (other : BitVec 32) :
    (s.onValidateData true address data).2.usage other =
      if other = data then ⟨if (s.usage data).count = 0 then address else (s.usage data).address,
        (s.usage data).count + 1⟩
      else s.usage other := by
  unfold GameServerNetImplENet.onValidateData
  rw [if_pos rfl, GameServerNetImplENet.usage]
  dsimp only
  rw [Function.update_apply]
  split
  · rw [Option.getD_some]
    split
    · simp only [Nat.mod_eq_of_lt hroom]
    · simp only [Nat.mod_eq_of_lt hroom]
  · rfl

/-- An attempt counts, accepted or not, and an accepted one is the first or has the address of the first. -/
theorem Sound.onValidateData (hsound : Sound w) (hroom : known = true → (w.server.usage data).count + 1 < 2 ^ 64)
    (hstep : w.step (.onValidateData known address data) = some w') : Sound w' := by
  have hnext : some { w with
      server := (w.server.onValidateData known address data).2
      accepted := if (w.server.onValidateData known address data).1 then
        Function.update w.accepted data (address :: w.accepted data) else w.accepted } = some w' := hstep
  obtain rfl := Option.some.inj hnext
  cases known with
  | false => exact hsound
  | true =>
    have husage := @usage_onValidateData address data w.server (hroom rfl)
    have hvalid : (w.server.onValidateData true address data).1 = true ↔
        (w.server.usage data).count = 0 ∨ ¬ 3 < (w.server.usage data).count ∧
          (w.server.usage data).address = address := by
      unfold GameServerNetImplENet.onValidateData
      rw [if_pos rfl, decide_eq_true_iff]
    have hfew := hsound.few data
    have hfirst := hsound.first data
    have haccepted : ∀ d, (if (w.server.onValidateData true address data).1 = true then
        Function.update w.accepted data (address :: w.accepted data) else w.accepted) d =
          if d = data ∧ (w.server.onValidateData true address data).1 = true then address :: w.accepted data
          else w.accepted d := by
      intro d
      split
      next hok => by_cases hd : d = data <;> simp [hd, hok]
      next hok => simp [hok]
    have hused : ∀ a ∈ w.accepted data, (w.server.usage data).count ≠ 0 := by
      intro a ha hzero
      have hlen := List.length_pos_of_mem ha
      omega
    refine ⟨hsound.handle, hsound.of_handle, hsound.of_data, fun peer d hmem => ?_, fun d => ?_,
      fun d => ?_, fun d => ?_⟩
    · have hspent := hsound.spent peer d hmem
      rw [husage]
      split
      next hd =>
        subst hd
        exact Nat.lt_succ_of_lt hspent
      next => exact hspent
    · dsimp only
      rw [haccepted, husage]
      by_cases hd : d = data
      · subst hd
        rw [if_pos rfl]
        split
        next hok =>
          have hroomLeft := hvalid.mp hok.2
          rw [List.length_cons]
          dsimp only
          omega
        next =>
          dsimp only
          omega
      · rw [if_neg hd, if_neg (fun h => hd h.1)]
        exact hsound.few d
    · dsimp only
      rw [haccepted]
      split
      next hok =>
        have hagree : ∀ a ∈ w.accepted data, a = address := by
          intro a ha
          have hroomLeft := hvalid.mp hok.2
          have hne := hused a ha
          have haddress : (w.server.usage data).address = address := by
            rcases hroomLeft with hzero | ⟨-, heq⟩
            · exact absurd hzero hne
            · exact heq
          exact (hfirst (by omega) a ha).trans haddress
        intro a ha b hb
        have hall : ∀ c ∈ address :: w.accepted data, c = address := by
          intro c hc
          rcases List.mem_cons.mp hc with hc | hc
          · exact hc
          · exact hagree c hc
        exact (hall a ha).trans (hall b hb).symm
      next => exact hsound.same d
    · dsimp only
      rw [haccepted, husage]
      by_cases hd : d = data
      · subst hd
        rw [if_pos rfl]
        dsimp only
        intro hcount a ha
        have hold : ∀ a ∈ w.accepted d, a = if (w.server.usage d).count = 0 then address
          else (w.server.usage d).address := by
          intro a ha
          rw [if_neg (hused a ha)]
          exact hfirst (by omega) a ha
        split at ha
        next hok =>
          rcases List.mem_cons.mp ha with rfl | ha
          · rcases hvalid.mp hok.2 with hzero | ⟨-, heq⟩
            · rw [if_pos hzero]
            · rw [heq, ite_self]
          · exact hold a ha
        next => exact hold a ha
      · rw [if_neg hd, if_neg (fun h => hd h.1)]
        exact hsound.first d

end Attempt

/-- A new peer has a new id, and spends its token. -/
theorem Sound.connect {peer : Nat} {data : BitVec 32} (hsound : Sound w)
    (hstep : w.step (.connect peer data) = some w') : Sound w' := by
  rw [step] at hstep
  split at hstep
  · cases hstep
  next hnew =>
    obtain rfl := Option.some.inj hstep
    have hfreshHandle : w.server.peerHandles (w.server.basePeerId + 1) = none := by
      cases hhandle : w.server.peerHandles (w.server.basePeerId + 1) with
      | none => rfl
      | some other =>
        have hle := (hsound.of_handle _ _ hhandle).2.1
        omega
    have hfreshData : w.server.peerData (w.server.basePeerId + 1) = none := by
      cases hdata : w.server.peerData (w.server.basePeerId + 1) with
      | none => rfl
      | some other =>
        have hle := hsound.of_data _ _ hdata
        omega
    have husage : ∀ d, (w.server.onConnect peer data).usage d =
        if d = data then { w.server.usage data with count := 9999 } else w.server.usage d := by
      intro d
      unfold GameServerNetImplENet.onConnect
      rw [GameServerNetImplENet.usage]
      dsimp only
      rw [Function.update_apply]
      split
      · rfl
      · rfl
    have hfew : ∀ d, (w.server.usage d).count ≤ ((w.server.onConnect peer data).usage d).count ∨
        3 < ((w.server.onConnect peer data).usage d).count := by
      intro d
      rw [husage]
      split
      · exact .inr (show 3 < 9999 by decide)
      · exact .inl le_rfl
    refine ⟨fun p d hmem => ?_, fun id p hhandle => ?_, fun id d hdata => ?_, fun p d hmem => ?_,
      fun d => ?_, hsound.same, fun d => ?_⟩
    · unfold GameServerNetImplENet.onConnect
      dsimp only
      rw [hfreshHandle, hfreshData]
      rcases List.mem_cons.mp hmem with heq | hold
      · obtain ⟨rfl, rfl⟩ := Prod.mk.inj heq
        simp
      · have hne : p ≠ peer := by
          rintro rfl
          exact hnew (List.mem_map.mpr ⟨(p, d), hold, rfl⟩)
        obtain ⟨hhandle, hdata⟩ := hsound.handle p d hold
        have hother : w.server.peerId p ≠ w.server.basePeerId + 1 := by
          have hle := (hsound.of_handle _ _ hhandle).2.1
          omega
        rw [Function.update_of_ne hne, Function.update_of_ne hother, Function.update_of_ne hother]
        exact ⟨hhandle, hdata⟩
    · unfold GameServerNetImplENet.onConnect at hhandle ⊢
      dsimp only at hhandle ⊢
      rw [Function.update_apply] at hhandle
      split at hhandle
      next hid =>
        rw [hfreshHandle] at hhandle
        obtain rfl : peer = p := Option.some.inj hhandle
        rw [Function.update_self, hid]
        exact ⟨rfl, le_rfl, List.mem_cons_self⟩
      next hid =>
        obtain ⟨hpeer, hle, hmem⟩ := hsound.of_handle id p hhandle
        have hne : p ≠ peer := by
          rintro rfl
          exact hnew hmem
        rw [Function.update_of_ne hne]
        exact ⟨hpeer, by omega, List.mem_cons_of_mem _ hmem⟩
    · unfold GameServerNetImplENet.onConnect at hdata ⊢
      dsimp only at hdata ⊢
      rw [Function.update_apply] at hdata
      split at hdata
      next hid => exact hid.le
      next =>
        have hle := hsound.of_data id d hdata
        omega
    · rw [husage]
      split
      next hd => exact (show 3 < 9999 by decide)
      next hd =>
        rcases List.mem_cons.mp hmem with heq | hmem
        · exact absurd (Prod.mk.inj heq).2 hd
        · exact hsound.spent p d hmem
    · have hlen := hsound.few d
      rcases hfew d with hmore | hspent
      · exact hlen.trans (min_le_min_left 4 hmore)
      · dsimp only
        omega
    · rw [husage]
      split
      · intro hle
        exact absurd hle (show ¬ 9999 ≤ 3 by decide)
      · exact hsound.first d

theorem data_unique {peer : Nat} {d d' : BitVec 32} (hsound : Sound w) (hmem : (peer, d) ∈ w.connected)
    (hmem' : (peer, d') ∈ w.connected) : d = d' :=
  Option.some.inj ((hsound.handle peer d hmem).2.symm.trans (hsound.handle peer d' hmem').2)

/-- A peer that goes away is forgotten with its token, which no other peer has. -/
theorem Sound.leave {peer : Nat} (hsound : Sound w) (hpeer : peer ∈ w.connected.map Prod.fst) (halone : w.Alone peer) :
    Sound (w.leave peer) := by
  obtain ⟨⟨first, data⟩, hmem, hfirst⟩ := List.mem_map.mp hpeer
  obtain rfl : first = peer := hfirst
  obtain ⟨hhandle, hdata⟩ := hsound.handle first data hmem
  have hstay : ∀ q d, (q, d) ∈ (w.leave first).connected ↔ (q, d) ∈ w.connected ∧ q ≠ first := by
    intro q d
    simp [TokenWorld.leave]
  have hserver : (w.leave first).server = { w.server with
      peerHandles := Function.update w.server.peerHandles (w.server.peerId first) none
      connectionUsage := Function.update w.server.connectionUsage data none
      peerData := Function.update w.server.peerData (w.server.peerId first) none } := by
    change w.server.onDisconnect first = _
    unfold GameServerNetImplENet.onDisconnect
    dsimp only
    rw [hdata]
  have husage : ∀ d, (w.leave first).server.usage d = if d = data then {} else w.server.usage d := by
    intro d
    rw [hserver, GameServerNetImplENet.usage]
    dsimp only
    rw [Function.update_apply]
    split
    · rfl
    · rfl
  have haccepted : ∀ d, (w.leave first).accepted d = if d = data then [] else w.accepted d := by
    intro d
    have hgone : d = data ↔ d ∈ w.connected.map Prod.snd ∧ d ∉ (w.leave first).connected.map Prod.snd := by
      constructor
      · rintro rfl
        refine ⟨List.mem_map.mpr ⟨_, hmem, rfl⟩, fun hafter => ?_⟩
        obtain ⟨⟨q, _⟩, hq, rfl⟩ := List.mem_map.mp hafter
        obtain ⟨hq, hne⟩ := (hstay q _).mp hq
        exact hne (halone _ q hmem hq)
      · rintro ⟨hbefore, hafter⟩
        obtain ⟨⟨q, _⟩, hq, rfl⟩ := List.mem_map.mp hbefore
        by_cases hne : q = first
        · subst hne
          exact data_unique hsound hq hmem
        · exact absurd (List.mem_map.mpr ⟨_, (hstay q _).mpr ⟨hq, hne⟩, rfl⟩) hafter
    by_cases hd : d = data
    · rw [if_pos hd]
      exact if_pos (hgone.mp hd)
    · rw [if_neg hd]
      exact if_neg fun h => hd (hgone.mpr h)
  have hother : ∀ q d, (q, d) ∈ w.connected → q ≠ first → w.server.peerId q ≠ w.server.peerId first := by
    intro q d hq hne heq
    have hq' := (hsound.handle q d hq).1
    rw [heq, hhandle] at hq'
    exact hne (Option.some.inj hq').symm
  refine ⟨fun q d hq => ?_, fun id q hid => ?_, fun id d hid => ?_, fun q d hq => ?_, fun d => ?_,
    fun d => ?_, fun d => ?_⟩
  · obtain ⟨hq, hne⟩ := (hstay q d).mp hq
    rw [hserver]
    dsimp only
    rw [Function.update_of_ne (hother q d hq hne), Function.update_of_ne (hother q d hq hne)]
    exact hsound.handle q d hq
  · rw [hserver] at hid ⊢
    dsimp only at hid ⊢
    rw [Function.update_apply] at hid
    split at hid
    · cases hid
    next hne =>
      obtain ⟨hqid, hle, hq⟩ := hsound.of_handle id q hid
      refine ⟨hqid, hle, ?_⟩
      obtain ⟨⟨q, d⟩, hmember, rfl⟩ := List.mem_map.mp hq
      refine List.mem_map.mpr ⟨(q, d), (hstay q d).mpr ⟨hmember, ?_⟩, rfl⟩
      rintro rfl
      exact hne hqid.symm
  · rw [hserver] at hid ⊢
    dsimp only at hid ⊢
    rw [Function.update_apply] at hid
    split at hid
    · cases hid
    · exact hsound.of_data id d hid
  · obtain ⟨hq, hne⟩ := (hstay q d).mp hq
    rw [husage, if_neg]
    · exact hsound.spent q d hq
    · rintro rfl
      exact hne (halone _ q hmem hq)
  · rw [haccepted, husage]
    split
    · exact Nat.zero_le _
    · exact hsound.few d
  · rw [haccepted]
    split
    · exact fun a ha => nomatch ha
    · exact hsound.same d
  · rw [haccepted, husage]
    split
    · exact fun _ a ha => nomatch ha
    · exact hsound.first d

theorem Sound.step {event : TokenEvent} (hsound : Sound w) (hallowed : w.Allowed event)
    (hstep : w.step event = some w') : Sound w' := by
  cases event with
  | onValidateData known address data => exact hsound.onValidateData hallowed hstep
  | connect peer data => exact hsound.connect hstep
  | disconnect peer =>
    rw [TokenWorld.step] at hstep
    split at hstep
    next hpeer =>
      obtain rfl := Option.some.inj hstep
      exact hsound.leave hpeer hallowed
    next => cases hstep
  | resetPeer peerId =>
    rw [TokenWorld.step] at hstep
    cases hhandle : w.server.peerHandles peerId with
    | none =>
      rw [hhandle] at hstep
      obtain rfl := Option.some.inj hstep
      exact hsound
    | some peer =>
      rw [hhandle] at hstep
      obtain rfl := Option.some.inj hstep
      exact hsound.leave (hsound.of_handle peerId peer hhandle).2.2 (hallowed peer hhandle)

/-- A token admits one peer in every run in which no peer goes away before another one of its token. The bounds on
the counters are those of their types. -/
theorem admitsOne_of_run {events : List TokenEvent} (hrun : Run step Allowed {} events w) : AdmitsOne w :=
  (hrun.invariant Sound start_sound fun hsound hallowed hstep => hsound.step hallowed hstep).admitsOne

theorem admitsOne_reconnect : ∃ w, Run step Allowed {} [.onValidateData true 1 7, .connect 0 7, .disconnect 0,
    .onValidateData true 2 7] w ∧ AdmitsOne w := by
  have hrun : ∃ w, Run step Allowed {}
    [.onValidateData true 1 7, .connect 0 7, .disconnect 0, .onValidateData true 2 7] w := by
    refine ⟨_, .cons (fun _ => show _ < _ by decide) rfl (.cons (show _ < _ by decide) rfl (.cons ?_ rfl
      (.cons (fun _ => show _ < _ by decide) rfl (.nil _))))⟩
    intro data other _ hother
    exact (Prod.mk.inj (List.mem_singleton.mp hother)).1
  obtain ⟨w, hw⟩ := hrun
  exact ⟨w, hw, admitsOne_of_run hw⟩

/-- Two peers have connected with a token. When one is gone, attempts are accepted although the other is connected. -/
theorem not_admitsOne_twice : ¬ ∀ events w, Run step (fun _ _ => True) {} events w → AdmitsOne w := by
  intro hall
  have hrun : ∃ w, Run step (fun _ _ => True) {}
      [.onValidateData true 1 7, .onValidateData true 1 7, .connect 0 7, .connect 1 7, .disconnect 0] w ∧
        (1, 7) ∈ w.connected ∧ (w.server.onValidateData true 1 7).1 = true :=
    ⟨_, .cons trivial rfl (.cons trivial rfl (.cons trivial rfl (.cons trivial rfl (.cons trivial rfl (.nil _))))),
      by decide, by decide⟩
  obtain ⟨w, hw, hmem, hvalid⟩ := hrun
  have hclosed := (hall _ w hw).closed 1 7 hmem true 1
  rw [hvalid] at hclosed
  cases hclosed

end TokenWorld

end fx
