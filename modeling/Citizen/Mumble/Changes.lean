import Citizen.Mumble.MembershipRuns

open Bits
open Transition

namespace mumble

namespace Server

variable {conf : Conf} {w w₁ w' : Server} {c s target : ClientPtr} {a : Action} {changed : ClientPtr → Prop}

/-- Only the clients in `changed` and what their sessions listen to are changed. Nobody gets another session, and
nobody's bandwidth is touched. -/
structure Alters (changed : ClientPtr → Prop) (w w' : Server) : Prop where
  clients : w'.clients = w.clients
  nextClient : w'.nextClient = w.nextClient
  others : ∀ c, ¬ changed c → w'.client c = w.client c
  sessionId : ∀ c, (w'.client c).sessionId = (w.client c).sessionId
  bandwidth : ∀ c, (w'.client c).availableBandwidth = (w.client c).availableBandwidth
  listens : ∀ session, (∀ c, changed c → session ≠ (w.client c).sessionId) → ∀ id,
    session ∈ w'.m_listenedChannels id ↔ session ∈ w.m_listenedChannels id

/-- Nor is what a client may do, which only authenticating changes. -/
structure Acts (changed : ClientPtr → Prop) (w w' : Server) : Prop extends Alters changed w w' where
  isAdmin : ∀ c, (w'.client c).isAdmin = (w.client c).isAdmin
  authenticated : ∀ c, (w'.client c).authenticated = (w.client c).authenticated
  tokens : ∀ c, (w'.client c).tokens = (w.client c).tokens

theorem Alters.trans (h : Alters changed w w₁) (h' : Alters changed w₁ w') : Alters changed w w' where
  clients := h'.clients.trans h.clients
  nextClient := h'.nextClient.trans h.nextClient
  others c hc := (h'.others c hc).trans (h.others c hc)
  sessionId c := (h'.sessionId c).trans (h.sessionId c)
  bandwidth c := (h'.bandwidth c).trans (h.bandwidth c)
  listens session hsession id :=
    (h'.listens session (fun c hc => h.sessionId c ▸ hsession c hc) id).trans (h.listens session hsession id)

theorem Acts.of_client_eq (hclients : w'.clients = w.clients) (hnextClient : w'.nextClient = w.nextClient)
    (hclient : w'.client = w.client) (hlistened : w'.m_listenedChannels = w.m_listenedChannels) :
    Acts changed w w' := by
  have hfield : ∀ {α : Type} (field : Client → α) c, field (w'.client c) = field (w.client c) :=
    fun _ _ => by rw [hclient]
  exact ⟨⟨hclients, hnextClient, fun _ _ => by rw [hclient], hfield _, hfield _, fun _ _ _ => by rw [hlistened]⟩,
    hfield _, hfield _, hfield _⟩

theorem Acts.refl (w : Server) : Acts changed w w := .of_client_eq rfl rfl rfl rfl

theorem Acts.trans (h : Acts changed w w₁) (h' : Acts changed w₁ w') : Acts changed w w' where
  toAlters := h.toAlters.trans h'.toAlters
  isAdmin c := (h'.isAdmin c).trans (h.isAdmin c)
  authenticated c := (h'.authenticated c).trans (h.authenticated c)
  tokens c := (h'.tokens c).trans (h.tokens c)

theorem alters_modifyClient (w : Server) (hc : changed c) {f : Client → Client}
    (hsession : (f (w.client c)).sessionId = (w.client c).sessionId)
    (hbandwidth : (f (w.client c)).availableBandwidth = (w.client c).availableBandwidth) :
    Alters changed w (w.modifyClient c f) := by
  refine ⟨rfl, rfl, fun c' hc' => modifyClient_of_ne w f ?_, modifyClient_eq Client.sessionId w c hsession,
    modifyClient_eq Client.availableBandwidth w c hbandwidth, fun _ _ _ => Iff.rfl⟩
  rintro rfl
  exact hc' hc

theorem acts_modifyClient (w : Server) (hc : changed c) {f : Client → Client}
    (hsession : (f (w.client c)).sessionId = (w.client c).sessionId)
    (hbandwidth : (f (w.client c)).availableBandwidth = (w.client c).availableBandwidth)
    (hadmin : (f (w.client c)).isAdmin = (w.client c).isAdmin)
    (hauth : (f (w.client c)).authenticated = (w.client c).authenticated)
    (htokens : (f (w.client c)).tokens = (w.client c).tokens) : Acts changed w (w.modifyClient c f) :=
  ⟨alters_modifyClient w hc hsession hbandwidth, modifyClient_eq Client.isAdmin w c hadmin,
    modifyClient_eq Client.authenticated w c hauth, modifyClient_eq Client.tokens w c htokens⟩

theorem acts_userJoin (w : Server) (ch : ChannelPtr) (hc : changed c) : Acts changed w (w.userJoin ch c) := by
  unfold userJoin
  split
  · exact .refl w
  · obtain ⟨hclient, hclients, hnextClient⟩ := client_userLeave w c
    have hleft : Acts changed w (w.userLeave c) := .of_client_eq hclients hnextClient hclient (listened_userLeave w c)
    refine (hleft.trans ?_).trans (acts_modifyClient _ hc rfl rfl rfl rfl rfl)
    exact .of_client_eq rfl rfl rfl rfl

theorem acts_addListener (w : Server) (hc : changed c) (id : Nat) :
    Acts changed w (w.addListener (w.client c).sessionId id) := by
  refine ⟨⟨rfl, rfl, fun _ _ => rfl, fun _ => rfl, fun _ => rfl, fun session hsession id' => ?_⟩, fun _ => rfl,
    fun _ => rfl, fun _ => rfl⟩
  unfold addListener
  by_cases hid : id' = id
  · rw [hid]
    simp [hsession c hc]
  · simp [Function.update_of_ne hid]

theorem acts_removeListener (w : Server) (hc : changed c) (id : Nat) :
    Acts changed w (w.removeListener (w.client c).sessionId id) := by
  refine ⟨⟨rfl, rfl, fun _ _ => rfl, fun _ => rfl, fun _ => rfl, fun session hsession id' => ?_⟩, fun _ => rfl,
    fun _ => rfl, fun _ => rfl⟩
  unfold removeListener
  by_cases hid : id' = id
  · rw [hid]
    simp [hsession c hc]
  · simp [Function.update_of_ne hid]

/-- The loops that add and remove listeners go on with the session that they started with. -/
theorem acts_foldl {session : Nat} {f : Server → Nat → Server}
    (hround : ∀ w, (w.client c).sessionId = session → ∀ id, Acts changed w (f w id)) (ids : List Nat) (w : Server)
    (hsession : (w.client c).sessionId = session) : Acts changed w (ids.foldl f w) := by
  refine Loop.keeps (fun w w' => (w.client c).sessionId = session → Acts changed w w') (fun w _ => .refl w) ?_
    (fun w id hsession => hround w hsession id) ids w hsession
  intro w₁ w₂ w₃ h h' hsession
  have hfirst := h hsession
  exact hfirst.trans (h' ((hfirst.sessionId c).trans hsession))

theorem acts_listeners (w : Server) (hc : changed c) (adding removing : List Nat) :
    Acts changed w (removing.foldl (fun w' id =>
      if (w'.fromId id).isSome then w'.removeListener (w.client c).sessionId id else w')
      (adding.foldl (fun w' id => w'.addListener (w.client c).sessionId id) w)) := by
  generalize hsession : (w.client c).sessionId = session
  have hadded : Acts changed w (adding.foldl (fun w' id => w'.addListener session id) w) :=
    acts_foldl (fun w' h id => h ▸ acts_addListener w' hc id) adding w hsession
  refine hadded.trans (acts_foldl (fun w' h id => ?_) removing _ ((hadded.sessionId c).trans hsession))
  split
  · exact h ▸ acts_removeListener w' hc id
  · exact .refl w'

theorem acts_channelState (w : Server) (hs : changed s) (msg : ChannelState) :
    Acts changed w (w.channelState s msg) := by
  have hcreated : ∀ parent name, Acts changed w (((w.createChannel name).2.modifyChannel w.nextChannel fun channel =>
      { channel with temporary := true }).addChannel parent w.nextChannel) := fun _ _ => .of_client_eq rfl rfl rfl rfl
  unfold channelState
  split
  · exact .refl w
  split
  · dsimp only
    split
    · exact .refl w
    split
    · exact .refl w
    split
    · exact .refl w
    split
    · exact .refl w
    · exact (hcreated _ _).trans (acts_userJoin _ _ hs)
  · exact .refl w

theorem acts_createGameChannel (w : Server) (channelName : Name) :
    Acts changed w (w.createGameChannel channelName) := by
  unfold createGameChannel
  split
  · exact .refl w
  split
  · exact .refl w
  · exact .of_client_eq rfl rfl rfl rfl

theorem acts_moveUser {channel_id : Option Nat} {removing : List Nat} (htarget : changed target)
    (h : w.moveUser target c channel_id = some (w', removing)) : Acts changed w w' := by
  cases channel_id with
  | none =>
    obtain ⟨rfl, _⟩ := Prod.mk.inj (Option.some.inj h)
    exact .refl w
  | some channelid =>
    unfold moveUser at h
    dsimp only at h
    split at h
    next => cases h
    next =>
      split at h
      next =>
        obtain ⟨rfl, _⟩ := Prod.mk.inj (Option.some.inj h)
        exact acts_userJoin w _ htarget
      next => cases h

/-- The message changes the client that sent it and the target, which is another client only for an admin. -/
theorem acts_userState (w : Server) (msg : UserState) (hs : changed s)
    (htarget : ∀ target, w.targetOf s msg = some target → target = s ∨ (w.client s).isAdmin = true → changed target) :
    Acts changed w (w.userState s msg) := by
  unfold userState
  dsimp only
  split
  next => exact .refl w
  next hallowed =>
    split
    next => exact .refl w
    next target hfound =>
      have htarget : changed target := by
        refine htarget target hfound ?_
        by_cases hother : (msg.session.any fun session => decide (session ≠ (w.client s).sessionId)) = true
        · exact .inr (Bool.eq_true_of_not_eq_false fun hadmin => hallowed ⟨hother, hadmin⟩)
        · rw [if_neg hother] at hfound
          exact .inl (Option.some.inj hfound).symm
      split
      next => exact .refl w
      have hflags := (acts_modifyClient w htarget (f := fun client =>
        { client with
          deaf := (applyFlags msg.deaf msg.mute (client.deaf, client.mute)).1
          mute := (applyFlags msg.deaf msg.mute (client.deaf, client.mute)).2 }) rfl rfl rfl rfl rfl).trans
        (acts_modifyClient _ hs (f := fun client =>
          { client with
            self_deaf := (applyFlags msg.self_deaf msg.self_mute (client.self_deaf, client.self_mute)).1
            self_mute := (applyFlags msg.self_deaf msg.self_mute (client.self_deaf, client.self_mute)).2 }) rfl
              rfl rfl rfl rfl)
      split
      next => exact hflags
      next w₁ removing hmove =>
        have hlistening := (hflags.trans (acts_moveUser htarget hmove)).trans (acts_listeners w₁ htarget
          (w.listenable msg.listening_channel_add) (msg.listening_channel_remove ++ removing))
        split
        next => exact hlistening
        next => exact hlistening.trans (acts_modifyClient _ hs rfl rfl rfl rfl rfl)

theorem acts_voiceTarget (w : Server) (hs : changed s) (targetId : Nat) (targets : List VoiceTarget.Target) :
    Acts changed w (w.voiceTarget s targetId targets) := by
  unfold voiceTarget
  split
  · exact .refl w
  · exact acts_modifyClient w hs rfl rfl rfl rfl rfl

theorem acts_userRemove (w : Server) (s : ClientPtr) (session : Nat)
    (htarget : ∀ target, (w.client target).sessionId = session → (w.client s).isAdmin = true → changed target) :
    Acts changed w (w.userRemove s session) := by
  unfold userRemove
  split
  next => exact .refl w
  next hadmin =>
    split
    next => exact .refl w
    next target hfound =>
      have hsession : (w.client target).sessionId = session := by simpa using List.find?_some hfound
      exact acts_modifyClient w (htarget target hsession (Bool.eq_true_of_not_eq_false hadmin)) rfl rfl rfl rfl rfl

theorem acts_setPlayerMuted (w : Server) (convertedServerId : Name) (muted : Bool) (h : ∀ target, changed target) :
    Acts changed w (w.setPlayerMuted convertedServerId muted) := by
  unfold setPlayerMuted
  split
  · exact .refl w
  · exact acts_modifyClient w (h _) rfl rfl rfl rfl rfl

theorem alters_authenticate (w : Server) (conf : Conf) (banned : Bool) (s : ClientPtr) (msg : Authenticate) :
    Alters (· = s) w (w.authenticate conf banned s msg) := by
  suffices h : ∀ changed : ClientPtr → Prop, changed s →
    Alters changed w (w.authenticate conf banned s msg) from h _ rfl
  intro changed hs
  unfold authenticate clientClose
  dsimp only
  repeat' split
  all_goals try exact alters_modifyClient w hs rfl rfl
  · exact alters_modifyClient w hs (by rw [addTokens_eq]) (by rw [addTokens_eq])
  · refine ((alters_modifyClient w hs ?_ ?_).trans (alters_modifyClient _ hs rfl rfl)).trans
      (acts_userJoin _ _ hs).toAlters
    all_goals rw [addTokens_eq]

/-- Whom a message changes: its sender, and others only when an admin sends it. The game mutes whom it likes. -/
def Changed (w : Server) : Action → ClientPtr → Prop
  | .authenticate s _ _, c | .channelState s _, c | .voiceTarget s _ _, c => c = s
  | .userState s msg, c => c = s ∨ (w.client s).isAdmin = true ∧ w.targetOf s msg = some c
  | .userRemove s session, c => (w.client s).isAdmin = true ∧ (w.client c).sessionId = session
  | .setPlayerMuted _ _, _ => True
  | _, _ => False

/-- What a step is to the clients. Clients come and go, and a voice packet and the clock change their bandwidth.
Authenticating changes rights, and all else changes neither. -/
inductive Kind (conf : Conf) (w : Server) : Action → Server → Prop
  | acts {a : Action} {w' : Server} (hsource : ∀ s, a.source = some s → s ∈ w.clients)
      (hquiet : ∀ s data, a ≠ .voice s data) (hacts : Acts (w.Changed a) w w') : Kind conf w a w'
  | authenticate {s : ClientPtr} {banned : Bool} {msg : Authenticate} (hs : s ∈ w.clients) :
    Kind conf w (.authenticate s banned msg) (w.authenticate conf banned s msg)
  | voice {s : ClientPtr} {data : List Byte} {w' : Server} {sent : List (ClientPtr × List Byte)} (hs : s ∈ w.clients)
      (hvoice : w.voiceMsg s data = some (w', sent)) : Kind conf w (.voice s data) w'
  | connect : Kind conf w .connect (w.clientAdd conf)
  | disconnect {s : ClientPtr} : Kind conf w (.disconnect s) (w.clientFree s)
  | janitor : Kind conf w .janitor (w.janitor conf)

theorem kind_of_step (hstep : step conf w a = some w') : Kind conf w a w' := by
  have hifAuth : ∀ {s : ClientPtr} {w₁ : Server}, a.source = some s → (∀ s data, a ≠ .voice s data) →
      Acts (w.Changed a) w w₁ →
        (if s ∈ w.clients then some (if (w.client s).authenticated then w₁ else w) else none) = some w' →
      Kind conf w a w' := by
    intro s w₁ hsource hquiet hacts heq
    obtain ⟨hs, ⟨_, rfl⟩ | rfl⟩ := heard heq
    · exact .acts (fun s' hs' => Option.some.inj (hsource.symm.trans hs') ▸ hs) hquiet hacts
    · exact .acts (fun s' hs' => Option.some.inj (hsource.symm.trans hs') ▸ hs) hquiet (.refl _)
  cases a with
  | connect => exact Option.some.inj hstep ▸ .connect
  | disconnect s =>
    obtain ⟨_, heq⟩ := Option.ite_none_right_eq_some.mp hstep
    exact Option.some.inj heq ▸ .disconnect
  | authenticate s banned msg =>
    obtain ⟨hs, heq⟩ := Option.ite_none_right_eq_some.mp hstep
    exact Option.some.inj heq ▸ .authenticate hs
  | userState s msg =>
    refine hifAuth rfl nofun (acts_userState w msg (.inl rfl) fun target hfound hallowed => ?_) hstep
    exact hallowed.imp_right fun hadmin => ⟨hadmin, hfound⟩
  | channelState s msg =>
    have hself : w.Changed (.channelState s msg) s := rfl
    exact hifAuth rfl nofun (acts_channelState w hself msg) hstep
  | voiceTarget s targetId targets =>
    have hself : w.Changed (.voiceTarget s targetId targets) s := rfl
    exact hifAuth rfl nofun (acts_voiceTarget w hself targetId targets) hstep
  | userRemove s session =>
    exact hifAuth rfl nofun (acts_userRemove w s session fun _ hsession hadmin => ⟨hadmin, hsession⟩) hstep
  | voice s data =>
    obtain ⟨⟨hs, _⟩, heq⟩ := Option.ite_none_right_eq_some.mp hstep
    obtain ⟨⟨_, sent⟩, hvoice, rfl⟩ := Option.map_eq_some_iff.mp heq
    exact .voice hs hvoice
  | janitor => exact Option.some.inj hstep ▸ .janitor
  | setPlayerMuted convertedServerId muted =>
    exact Option.some.inj hstep ▸ .acts nofun nofun (acts_setPlayerMuted w convertedServerId muted fun _ => trivial)
  | createGameChannel channelName =>
    exact Option.some.inj hstep ▸ .acts nofun nofun (acts_createGameChannel w channelName)

end Server

end mumble
