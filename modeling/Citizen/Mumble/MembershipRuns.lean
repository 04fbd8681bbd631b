import Citizen.Mumble.Membership

open Bits
open Transition

namespace mumble

namespace Server

variable {conf : Conf} {w w₁ w' : Server} {c target : ClientPtr} {ch parent : ChannelPtr}

/-- A new channel is empty. -/
theorem Members.add (h : Members (fun _ => False) (fun _ => False) w) (htree : Tree w) (hcreated : Created w w₁)
    (hparent : parent ∈ w.channels) :
    Members (fun _ => False) (fun ch => ch = w.nextChannel ∧ (w₁.channel w.nextChannel).temporary = true)
      (w₁.addChannel parent w.nextChannel) := by
  obtain ⟨hfields, hnew⟩ := hcreated.fields htree hparent
  have hlists : (w₁.addChannel parent w.nextChannel).channels = w.channels ++ [w.nextChannel] :=
    congrArg (· ++ [w.nextChannel]) hcreated.channels
  have hclient : (w₁.addChannel parent w.nextChannel).client = w.client := hcreated.client
  have hclients : (w₁.addChannel parent w.nextChannel).clients = w.clients := hcreated.clients
  generalize w₁.addChannel parent w.nextChannel = w₂ at hfields hnew hlists hclient hclients ⊢
  have hmembers : ∀ {ch}, ch ∈ w₂.channels → ch ∈ w.channels ∧ (w₂.channel ch).clients = (w.channel ch).clients ∧
      (w₂.channel ch).temporary = (w.channel ch).temporary ∨ ch = w.nextChannel ∧ (w₂.channel ch).clients = [] := by
    intro ch hch
    rw [hlists] at hch
    obtain hold | hmade := List.mem_append.mp hch
    · obtain ⟨_, htemporary, _, hmembers, _⟩ := hfields ch hold
      exact .inl ⟨hold, hmembers, htemporary⟩
    · obtain rfl := List.mem_singleton.mp hmade
      refine .inr ⟨rfl, ?_⟩
      rw [hnew]
      exact hcreated.empty
  constructor
  · rw [hclient, hclients]
    exact h.joined
  · rw [hclient, hclients, hlists]
    intro c hc hstays ch hat
    obtain ⟨hin, hmem⟩ := h.channel c hc hstays ch hat
    rw [(hfields ch hin).2.2.2.1]
    exact ⟨List.mem_append_left _ hin, hmem⟩
  · rw [hclient, hclients]
    intro ch hch c hc
    obtain ⟨hold, heq, _⟩ | ⟨_, hempty⟩ := hmembers hch
    · exact h.clients ch hold c (heq ▸ hc)
    · rw [hempty] at hc
      cases hc
  · intro ch hch
    obtain ⟨hold, heq, _⟩ | ⟨_, hempty⟩ := hmembers hch
    · rw [heq]
      exact h.nodup ch hold
    · rw [hempty]
      exact List.nodup_nil
  · intro ch hch hmade htrue
    obtain ⟨hold, heq, htemporary⟩ | ⟨rfl, _⟩ := hmembers hch
    · rw [heq]
      exact h.occupied ch hold id (htemporary ▸ htrue)
    · rw [hnew] at htrue
      exact absurd ⟨rfl, htrue⟩ hmade

theorem Created.sameClients (h : Created w w₁) (parent : ChannelPtr) :
    SameClients w (w₁.addChannel parent w.nextChannel) :=
  ⟨h.clients, h.nextClient, fun _ => congrArg (fun client : ClientPtr → Client => (client _).sessionId) h.client,
    fun _ => congrArg (fun client : ClientPtr → Client => (client _).username) h.client,
    fun _ => congrArg (fun client : ClientPtr → Client => (client _).authenticated) h.client⟩

/-- The channel with the number 0 is the root. -/
theorem Tree.fromId_zero (h : Tree w) (hfrom : w.fromId 0 = some ch) : ch = 0 := by
  obtain ⟨hin, hid⟩ := mem_of_fromId hfrom
  exact List.inj_on_of_nodup_map h.ids hin h.root.1 (hid.trans h.root.2.2.2.symm)

theorem Coherent.createGameChannel (h : Coherent w) (channelName : Name) :
    Coherent (w.createGameChannel channelName) := by
  unfold Server.createGameChannel
  split
  next => exact h
  next parent hfrom =>
    split
    next => exact h
    next =>
      have hcreated := created_createChannel w channelName
      have hparent := (mem_of_fromId hfrom).1
      have hpermanent : (w.channel parent).temporary = false := h.tree.fromId_zero hfrom ▸ h.tree.root.2.1
      have hmembers := h.members.add h.tree hcreated hparent
      rw [createChannel_self] at hmembers
      refine ⟨(hcreated.sameClients parent).sessions h.sessions, h.tree.add hcreated hparent hpermanent (.inl rfl), ?_⟩
      exact ⟨hmembers.joined, hmembers.channel, hmembers.clients, hmembers.nodup,
        fun ch hch _ => hmembers.occupied ch hch fun hmade => Bool.false_ne_true hmade.2⟩

theorem Coherent.channelState (h : Coherent w) (hc : c ∈ w.clients) (hauth : (w.client c).authenticated = true)
    (msg : ChannelState) : Coherent (w.channelState c msg) := by
  unfold Server.channelState
  split
  next => exact h
  split
  next parentId name _ _ =>
    dsimp only
    split
    next => exact h
    split
    next => exact h
    next parent hfrom =>
      split
      next => exact h
      split
      next => exact h
      next hpermanent =>
        have hcreated : Created w (((w.createChannel (cstr name)).2).modifyChannel w.nextChannel fun channel =>
            { channel with temporary := true }) :=
          (created_createChannel w (cstr name)).modify (fun _ => rfl) (fun _ => rfl) (fun _ => rfl) (fun _ => rfl)
        have hparent := (mem_of_fromId hfrom).1
        have hsessions := (hcreated.sameClients parent).sessions h.sessions
        have htree := h.tree.add hcreated hparent (by simpa using hpermanent) (.inl rfl)
        have hmembers := h.members.add h.tree hcreated hparent
        have hin : w.nextChannel ∈ w.channels ++ [w.nextChannel] := List.mem_append_right _ List.mem_cons_self
        have hjoined := hmembers.userJoin htree hc hauth hin fun _ hmade => hmade.1
        exact ⟨(sameClients_userJoin _ _ _).sessions hsessions, hjoined.1, hjoined.2⟩
  next => exact h

theorem Coherent.moveUser (h : Coherent w) {channel_id : Option Nat} {removing : List Nat}
    (htarget : target ∈ w.clients) (hauth : channel_id.isSome → (w.client target).authenticated = true)
    (hmove : w.moveUser target c channel_id = some (w', removing)) : Coherent w' := by
  cases channel_id with
  | none =>
    obtain ⟨rfl, _⟩ := Prod.mk.inj (Option.some.inj hmove)
    exact h
  | some channelid =>
    unfold Server.moveUser at hmove
    dsimp only at hmove
    split at hmove
    next => cases hmove
    next ch hfrom =>
      split at hmove
      next =>
        obtain ⟨rfl, _⟩ := Prod.mk.inj (Option.some.inj hmove)
        exact h.userJoin htarget (hauth rfl) (mem_of_fromId hfrom).1
      next => cases hmove

/-- The client that a message is about. -/
def targetOf (w : Server) (c : ClientPtr) (msg : UserState) : Option ClientPtr :=
  if msg.session.any fun session => session ≠ (w.client c).sessionId then
    w.clients.find? fun itr => some (w.client itr).sessionId = msg.session
  else some c

/-- A client that is moved has authenticated. -/
def MovesMember (w : Server) : Action → Prop
  | .userState c msg => msg.channel_id.isSome → ∀ target ∈ w.targetOf c msg, (w.client target).authenticated = true
  | _ => True

theorem mem_of_targetOf {msg : UserState} (hc : c ∈ w.clients) (h : w.targetOf c msg = some target) :
    target ∈ w.clients := by
  unfold Server.targetOf at h
  split at h
  · exact List.mem_of_find?_eq_some h
  · exact Option.some.inj h ▸ hc

theorem Coherent.userState (h : Coherent w) {msg : UserState} (hc : c ∈ w.clients)
    (hmoves : w.MovesMember (.userState c msg)) : Coherent (w.userState c msg) := by
  unfold Server.userState
  dsimp only
  split
  next => exact h
  split
  next => exact h
  next target htarget =>
    split
    next => exact h
    have hin : target ∈ w.clients := mem_of_targetOf hc htarget
    have hauth : msg.channel_id.isSome → (w.client target).authenticated = true :=
      fun hsome => hmoves hsome target htarget
    have hflags := (seated_modifyClient w target (f := fun client =>
      { client with
        deaf := (applyFlags msg.deaf msg.mute (client.deaf, client.mute)).1
        mute := (applyFlags msg.deaf msg.mute (client.deaf, client.mute)).2 }) rfl rfl rfl rfl).trans
      (seated_modifyClient _ c (f := fun client =>
        { client with
          self_deaf := (applyFlags msg.self_deaf msg.self_mute (client.self_deaf, client.self_mute)).1
          self_mute := (applyFlags msg.self_deaf msg.self_mute (client.self_deaf, client.self_mute)).2 })
            rfl rfl rfl rfl)
    split
    next => exact hflags.coherent h
    next w₁ removing hmove =>
      have hmoved : Coherent w₁ :=
        (hflags.coherent h).moveUser hin (fun hsome => (hflags.authenticated target).trans (hauth hsome)) hmove
      have hlistening := (seated_listeners w₁ (w₁.client target).sessionId (w.listenable msg.listening_channel_add)
        (msg.listening_channel_remove ++ removing)).coherent hmoved
      split
      next => exact hlistening
      next => exact (seated_modifyClient _ c rfl rfl rfl rfl).coherent hlistening

/-- What a client sends is heard once it has authenticated. -/
theorem heard {w₁ : Server}
    (h : (if c ∈ w.clients then some (if (w.client c).authenticated then w₁ else w) else none) = some w') :
    c ∈ w.clients ∧ ((w.client c).authenticated = true ∧ w' = w₁ ∨ w' = w) := by
  obtain ⟨hc, heq⟩ := Option.ite_none_right_eq_some.mp h
  obtain rfl := Option.some.inj heq
  refine ⟨hc, ?_⟩
  split
  next hauth => exact .inl ⟨hauth, rfl⟩
  next => exact .inr rfl

theorem Coherent.step {a : Action} (h : Coherent w) (hmoves : w.MovesMember a) (hstep : step conf w a = some w') :
    Coherent w' := by
  have hifAuth : ∀ {c : ClientPtr} {w₁ : Server},
      (if c ∈ w.clients then some (if (w.client c).authenticated then w₁ else w) else none) = some w' →
        (c ∈ w.clients → (w.client c).authenticated = true → Coherent w₁) → Coherent w' := by
    intro c w₁ heq hdone
    obtain ⟨hc, ⟨hauth, rfl⟩ | rfl⟩ := heard heq
    · exact hdone hc hauth
    · exact h
  cases a with
  | connect => exact Option.some.inj hstep ▸ h.clientAdd conf
  | disconnect c =>
    obtain ⟨hc, heq⟩ := Option.ite_none_right_eq_some.mp hstep
    exact Option.some.inj heq ▸ h.clientFree hc
  | authenticate c banned msg =>
    obtain ⟨hc, heq⟩ := Option.ite_none_right_eq_some.mp hstep
    exact Option.some.inj heq ▸ h.authenticate conf banned hc msg
  | userState c msg => exact hifAuth hstep fun hc _ => h.userState hc hmoves
  | channelState c msg => exact hifAuth hstep fun hc hauth => h.channelState hc hauth msg
  | voiceTarget c targetId targets =>
    exact hifAuth hstep fun _ _ => (seated_voiceTarget w c targetId targets).coherent h
  | userRemove c session => exact hifAuth hstep fun _ _ => (seated_userRemove w c session).coherent h
  | voice c data =>
    obtain ⟨_, heq⟩ := Option.ite_none_right_eq_some.mp hstep
    obtain ⟨⟨_, sent⟩, hvoice, rfl⟩ := Option.map_eq_some_iff.mp heq
    exact (seated_voiceMsg hvoice).coherent h
  | janitor => exact Option.some.inj hstep ▸ (seated_janitor conf w).coherent h
  | setPlayerMuted convertedServerId muted =>
    exact Option.some.inj hstep ▸ (seated_setPlayerMuted w convertedServerId muted).coherent h
  | createGameChannel channelName => exact Option.some.inj hstep ▸ h.createGameChannel channelName

theorem Fresh.coherent (h : Fresh w) : Coherent w where
  sessions := by
    constructor
    all_goals simp [h.clients]
  tree := h.tree
  members := by
    constructor
    case clients =>
      intro ch hch c hc
      rw [(h.channels ch hch).2] at hc
      cases hc
    case nodup =>
      intro ch hch
      rw [(h.channels ch hch).2]
      exact List.nodup_nil
    case occupied =>
      intro ch hch _ htrue
      rw [(h.channels ch hch).1] at htrue
      cases htrue
    all_goals simp [h.clients]

/-- From the configuration on, sessions and names stay unique, the channels a tree, and clients and channels agree
on who is where. The condition is on an admin who moves somebody: the one who is moved has authenticated. -/
theorem coherent_of_run {channels : List ConfChannel} {defaultChannelName : Name} {links : List (Name × Name)}
    {acts : List Action} (hinit : chanInit channels defaultChannelName links = some w)
    (hrun : Run (step conf) MovesMember w acts w') : Coherent w' :=
  hrun.invariant Coherent (fresh_chanInit hinit).coherent fun h hmoves hstep => h.step hmoves hstep

def movesMemberCheck (w : Server) : Action → Bool
  | .userState c msg => !msg.channel_id.isSome || (w.targetOf c msg).all fun target => (w.client target).authenticated
  | _ => true

theorem movesMember_of_check (w : Server) (a : Action) (h : w.movesMemberCheck a = true) : w.MovesMember a := by
  cases a with
  | userState c msg =>
    intro hsome target htarget
    unfold movesMemberCheck at h
    dsimp only at h
    rw [hsome] at h
    exact (Option.all_eq_true _ _).mp h target htarget
  | _ => trivial

/-- A lobby, and a quiet channel below it. -/
def twoChannels : List ConfChannel :=
  [⟨[82#8], [], none, true, false⟩, ⟨[76#8], [82#8], none, false, false⟩]

def plainConf : Conf := ⟨[], [84#8], 8, 6000⟩

/-- A second client makes a temporary channel, and an admin follows it there. Then both go. -/
def tempActs : List Action :=
  [.connect, .connect, .authenticate 0 false ⟨[65#8], [], [[84#8]]⟩, .authenticate 1 false ⟨[66#8, 0#8], [], []⟩,
    .channelState 1 ⟨none, some 1, some [88#8], true⟩, .userState 0 { channel_id := some 2, mute := some true },
    .voice 0 [0x80#8, 1#8], .userState 0 { session := some 2, channel_id := some 1 }, .disconnect 0]

theorem twoChannels_isSome : (chanInit twoChannels [76#8] []).isSome = true := by decide +kernel

theorem coherent_of_run_temporary : ∃ w w', chanInit twoChannels [76#8] [] = some w ∧
    Run (step plainConf) MovesMember w tempActs w' ∧ w'.channels = [0, 1] ∧ (w'.channel 1).clients = [1] ∧
      Coherent w' := by
  have hend : (exec (fun w a => if movesMemberCheck w a then step plainConf w a else none)
      ((chanInit twoChannels [76#8] []).get twoChannels_isSome) tempActs).any
      (fun w => w.channels = [0, 1] ∧ (w.channel 1).clients = [1]) = true := by decide +kernel
  obtain ⟨w', hrun, hend⟩ := exists_checked movesMember_of_check hend
  have hinit := (Option.some_get twoChannels_isSome).symm
  obtain ⟨hchannels, hclients⟩ := of_decide_eq_true hend
  exact ⟨_, w', hinit, hrun, hchannels, hclients, coherent_of_run hinit hrun⟩

end Server

end mumble
