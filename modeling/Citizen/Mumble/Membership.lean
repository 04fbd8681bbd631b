import Citizen.Mumble.ChannelTree

open Bits

namespace mumble

namespace Server

variable {w w' : Server} {c : ClientPtr} {ch : ChannelPtr}

/-- Sessions and the names of clients that authenticated are unique. -/
structure Sessions (w : Server) : Prop where
  old : ∀ c ∈ w.clients, c < w.nextClient
  sessions : (w.clients.map fun c => (w.client c).sessionId).Nodup
  named : ∀ c ∈ w.clients, (w.client c).authenticated = true →
    ∃ name, (w.client c).username = some name ∧ 0 < name.length ∧ name.length < MAX_USERNAME
  names : ∀ c ∈ w.clients, ∀ c' ∈ w.clients, (w.client c).authenticated = true → (w.client c').authenticated = true →
    (w.client c).username = (w.client c').username → c = c'

/-- Clients and channels agree on who is where, but for a client that is on its way. A temporary channel is not
empty, but for one that was just made. -/
structure Members (away : ClientPtr → Prop) (made : ChannelPtr → Prop) (w : Server) : Prop where
  joined : ∀ c ∈ w.clients, ¬ away c → ((w.client c).authenticated = true ↔ (w.client c).channel.isSome)
  channel : ∀ c ∈ w.clients, ¬ away c → ∀ ch, (w.client c).channel = some ch →
    ch ∈ w.channels ∧ c ∈ (w.channel ch).clients
  clients : ∀ ch ∈ w.channels, ∀ c ∈ (w.channel ch).clients,
    c ∈ w.clients ∧ ¬ away c ∧ (w.client c).channel = some ch
  nodup : ∀ ch ∈ w.channels, (w.channel ch).clients.Nodup
  occupied : ∀ ch ∈ w.channels, ¬ made ch → (w.channel ch).temporary = true → (w.channel ch).clients ≠ []

structure Coherent (w : Server) : Prop where
  sessions : Sessions w
  tree : Tree w
  members : Members (fun _ => False) (fun _ => False) w

/-- The same clients under the same names. -/
structure SameClients (w w' : Server) : Prop where
  clients : w'.clients = w.clients
  nextClient : w'.nextClient = w.nextClient
  sessionId : ∀ c, (w'.client c).sessionId = (w.client c).sessionId
  username : ∀ c, (w'.client c).username = (w.client c).username
  authenticated : ∀ c, (w'.client c).authenticated = (w.client c).authenticated

theorem SameClients.sessions (h : SameClients w w') (hsessions : Sessions w) : Sessions w' := by
  obtain ⟨old, sessions, named, names⟩ := hsessions
  constructor
  all_goals simp only [h.clients, h.nextClient, h.sessionId, h.username, h.authenticated]
  all_goals assumption

/-- The same clients in the same channels. -/
structure Seated (w w' : Server) : Prop extends SameClients w w' where
  channels : w'.channels = w.channels
  channel : w'.channel = w.channel
  nextChannel : w'.nextChannel = w.nextChannel
  defaultChan : w'.defaultChan = w.defaultChan
  inChannel : ∀ c, (w'.client c).channel = (w.client c).channel

theorem Seated.of_client_eq (hclients : w'.clients = w.clients) (hclient : w'.client = w.client)
    (hnextClient : w'.nextClient = w.nextClient) (hchannels : w'.channels = w.channels)
    (hchannel : w'.channel = w.channel)
    (hnextChannel : w'.nextChannel = w.nextChannel) (hdefault : w'.defaultChan = w.defaultChan) : Seated w w' :=
  ⟨⟨hclients, hnextClient, fun _ => by rw [hclient], fun _ => by rw [hclient], fun _ => by rw [hclient]⟩,
    hchannels, hchannel, hnextChannel, hdefault, fun _ => by rw [hclient]⟩

theorem Seated.refl (w : Server) : Seated w w := .of_client_eq rfl rfl rfl rfl rfl rfl rfl

theorem Seated.trans {w₁ : Server} (h : Seated w w₁) (h' : Seated w₁ w') : Seated w w' where
  clients := h'.clients.trans h.clients
  nextClient := h'.nextClient.trans h.nextClient
  channels := h'.channels.trans h.channels
  channel := h'.channel.trans h.channel
  nextChannel := h'.nextChannel.trans h.nextChannel
  defaultChan := h'.defaultChan.trans h.defaultChan
  sessionId c := (h'.sessionId c).trans (h.sessionId c)
  username c := (h'.username c).trans (h.username c)
  authenticated c := (h'.authenticated c).trans (h.authenticated c)
  inChannel c := (h'.inChannel c).trans (h.inChannel c)

theorem seated_modifyClient (w : Server) (c : ClientPtr) {f : Client → Client}
    (hsession : (f (w.client c)).sessionId = (w.client c).sessionId)
    (hname : (f (w.client c)).username = (w.client c).username)
    (hauth : (f (w.client c)).authenticated = (w.client c).authenticated)
    (hchannel : (f (w.client c)).channel = (w.client c).channel) : Seated w (w.modifyClient c f) :=
  ⟨⟨rfl, rfl, modifyClient_eq _ w c hsession, modifyClient_eq _ w c hname, modifyClient_eq _ w c hauth⟩, rfl,
    rfl, rfl, rfl, modifyClient_eq _ w c hchannel⟩

namespace Seated

variable (h : Seated w w')
include h

theorem sameTree : SameTree w w' :=
  ⟨h.channels, h.nextChannel, h.defaultChan,
    fun _ => by rw [h.channel], fun _ => by rw [h.channel], fun _ => by rw [h.channel], fun _ => by rw [h.channel],
    fun _ => by rw [h.channel]⟩

theorem members {away : ClientPtr → Prop} {made : ChannelPtr → Prop} (hmembers : Members away made w) :
    Members away made w' := by
  obtain ⟨joined, channel, clients, nodup, occupied⟩ := hmembers
  constructor
  all_goals simp only [h.clients, h.channels, h.channel, h.authenticated, h.inChannel]
  all_goals assumption

theorem coherent (hcoherent : Coherent w) : Coherent w' :=
  ⟨h.toSameClients.sessions hcoherent.sessions, h.sameTree.tree hcoherent.tree, h.members hcoherent.members⟩

end Seated

theorem addTokens_eq (client : Client) (tokens : List (List Byte)) :
    addTokens client tokens = { client with tokens := (addTokens client tokens).tokens } := by
  unfold addTokens
  split
  · split <;> rfl
  · rfl

theorem seated_clientClose (w : Server) (c : ClientPtr) : Seated w (w.clientClose c) :=
  seated_modifyClient w c rfl rfl rfl rfl

theorem seated_janitor (conf : Conf) (w : Server) : Seated w (w.janitor conf) := by
  have hkeeps : ∀ {α : Type} (field : Client → α), (∀ client, field (refill conf client) = field client) →
      ∀ c, field ((w.janitor conf).client c) = field (w.client c) := by
    intro α field hfield c
    unfold janitor
    dsimp only
    split
    · exact hfield _
    · rfl
  exact ⟨⟨rfl, rfl, hkeeps _ fun _ => rfl, hkeeps _ fun _ => rfl, hkeeps _ fun _ => rfl⟩, rfl, rfl, rfl, rfl,
    hkeeps _ fun _ => rfl⟩

theorem seated_voiceTarget (w : Server) (c : ClientPtr) (targetId : Nat) (targets : List VoiceTarget.Target) :
    Seated w (w.voiceTarget c targetId targets) := by
  unfold voiceTarget
  split
  · exact .refl w
  · exact seated_modifyClient w c rfl rfl rfl rfl

theorem seated_userRemove (w : Server) (c : ClientPtr) (session : Nat) : Seated w (w.userRemove c session) := by
  unfold userRemove
  split
  · exact .refl w
  · split
    · exact .refl w
    · exact seated_clientClose w _

theorem seated_setPlayerMuted (w : Server) (convertedServerId : Name) (muted : Bool) :
    Seated w (w.setPlayerMuted convertedServerId muted) := by
  unfold setPlayerMuted
  split
  · exact .refl w
  · exact seated_modifyClient w _ rfl rfl rfl rfl

/-- A packet that is relayed takes its size from the bandwidth of the client, and is all that does. -/
theorem voiceMsg_state {data : List Byte} {sent : List (ClientPtr × List Byte)}
    (h : w.voiceMsg c data = some (w', sent)) :
    w.relaysTo c data = none ∧ w' = w ∨ (w.relaysTo c data).isSome = true ∧ w' = w.modifyClient c fun client =>
      { client with availableBandwidth := client.availableBandwidth - packetsize data } := by
  unfold voiceMsg at h
  split at h
  next hnone =>
    obtain ⟨rfl, _⟩ := Prod.mk.inj (Option.some.inj h)
    exact .inl ⟨hnone, rfl⟩
  next ch hrelays =>
    refine .inr ⟨Option.isSome_iff_exists.mpr ⟨ch, hrelays⟩, ?_⟩
    dsimp only at h
    split at h
    · obtain ⟨rfl, _⟩ := Prod.mk.inj (Option.some.inj h)
      rfl
    · split at h
      · cases h
      · obtain ⟨rfl, _⟩ := Prod.mk.inj (Option.some.inj h)
        rfl

theorem seated_voiceMsg {data : List Byte} {sent : List (ClientPtr × List Byte)}
    (h : w.voiceMsg c data = some (w', sent)) :
    Seated w w' := by
  obtain ⟨_, rfl⟩ | ⟨_, rfl⟩ := voiceMsg_state h
  · exact .refl _
  · exact seated_modifyClient w c rfl rfl rfl rfl

theorem seated_listeners (w : Server) (session : Nat) (adding removing : List Nat) :
    Seated w (removing.foldl (fun w id => if (w.fromId id).isSome then w.removeListener session id else w)
      (adding.foldl (fun w id => w.addListener session id) w)) := by
  have hadding : Seated w (adding.foldl (fun w id => w.addListener session id) w) :=
    Loop.keeps Seated .refl .trans
      (fun w id => (.of_client_eq rfl rfl rfl rfl rfl rfl rfl : Seated w (w.addListener session id))) adding w
  refine hadding.trans (Loop.keeps Seated .refl .trans (fun w id => ?_) removing _)
  split
  · exact .of_client_eq rfl rfl rfl rfl rfl rfl rfl
  · exact .refl w

/-- A client that leaves its channel is on its way. The other channels stay. -/
theorem Members.leave {made : ChannelPtr → Prop} (h : Members (fun _ => False) made w) (htree : Tree w)
    (hc : c ∈ w.clients) :
    Tree (w.userLeave c) ∧ Members (· = c) made (w.userLeave c) ∧
      ∀ ch ∈ w.channels, (w.client c).channel ≠ some ch → ch ∈ (w.userLeave c).channels := by
  obtain ⟨hclient, hclients, _⟩ := client_userLeave w c
  cases hchannel : (w.client c).channel with
  | none =>
    have hsame : w.userLeave c = w := by rw [userLeave, hchannel]
    rw [hsame]
    refine ⟨htree, ⟨fun c' hc' _ => h.joined c' hc' id, fun c' hc' _ => h.channel c' hc' id, ?_, h.nodup, h.occupied⟩,
      fun ch hch _ => hch⟩
    intro ch hch c' hc'
    obtain ⟨hin, _, hat⟩ := h.clients ch hch c' hc'
    refine ⟨hin, ?_, hat⟩
    rintro rfl
    rw [hchannel] at hat
    cases hat
  | some l =>
    obtain ⟨hl, hcl⟩ := h.channel c hc id l hchannel
    obtain ⟨htree', htemporary, hlists⟩ := htree.leave hl hchannel
    have hsub : ∀ {ch}, ch ∈ (w.userLeave c).channels → ch ∈ w.channels := by
      intro ch hch
      obtain ⟨heq, _⟩ | ⟨heq, _⟩ := hlists
      · rwa [heq] at hch
      · exact List.mem_of_mem_erase (heq ▸ hch)
    have hkept : ∀ ch ∈ w.channels, ch ≠ l → ch ∈ (w.userLeave c).channels := by
      intro ch hch hne
      obtain ⟨heq, _⟩ | ⟨heq, _⟩ := hlists
      · rwa [heq]
      · rw [heq]
        exact (List.mem_erase_of_ne hne).mpr hch
    have hnodup := h.nodup l hl
    refine ⟨htree', ⟨?_, ?_, ?_, ?_, ?_⟩, fun ch hch hne => hkept ch hch fun heq => hne (heq ▸ rfl)⟩
    · rw [hclient, hclients]
      exact fun c' hc' _ => h.joined c' hc' id
    · rw [hclient, hclients]
      intro c' hc' hne ch hch
      obtain ⟨hin, hmem⟩ := h.channel c' hc' id ch hch
      rw [clients_userLeave hchannel]
      by_cases hchl : ch = l
      · subst hchl
        have hleft : c' ∈ (w.channel ch).clients.erase c := (List.mem_erase_of_ne hne).mpr hmem
        rw [if_pos rfl]
        refine ⟨?_, hleft⟩
        obtain ⟨heq, _⟩ | ⟨_, hempty⟩ := hlists
        · rwa [heq]
        · rw [hempty] at hleft
          cases hleft
      · rw [if_neg hchl]
        exact ⟨hkept ch hin hchl, hmem⟩
    · rw [hclient, hclients]
      intro ch hch c' hc'
      rw [clients_userLeave hchannel] at hc'
      split at hc'
      next hchl =>
        subst hchl
        obtain ⟨hne, hmem⟩ := hnodup.mem_erase_iff.mp hc'
        obtain ⟨hin, _, hat⟩ := h.clients ch hl c' hmem
        exact ⟨hin, hne, hat⟩
      next hchl =>
        obtain ⟨hin, _, hat⟩ := h.clients ch (hsub hch) c' hc'
        refine ⟨hin, ?_, hat⟩
        rintro rfl
        rw [hchannel] at hat
        exact hchl (Option.some.inj hat).symm
    · intro ch hch
      rw [clients_userLeave hchannel]
      split
      · exact hnodup.erase c
      · exact h.nodup ch (hsub hch)
    · intro ch hch hmade htrue
      rw [htemporary] at htrue
      rw [clients_userLeave hchannel]
      split
      next hchl =>
        subst hchl
        obtain ⟨_, hstays⟩ | ⟨heq, _⟩ := hlists
        · exact hstays htrue
        · rw [heq] at hch
          exact absurd hch (htree.channelsNodup.not_mem_erase)
      next hchl => exact h.occupied ch (hsub hch) hmade htrue

/-- What joining changes when the client was elsewhere. -/
theorem userJoin_fields (hne : (w.client c).channel ≠ some ch) :
    SameTree (w.userLeave c) (w.userJoin ch c) ∧ (w.userJoin ch c).clients = w.clients ∧
      (w.userJoin ch c).nextClient = w.nextClient ∧
      (∀ c', (w.userJoin ch c).client c' = if c' = c then { w.client c with channel := some ch } else w.client c') ∧
      ∀ ch', ((w.userJoin ch c).channel ch').clients =
        if ch' = ch then ((w.userLeave c).channel ch).clients ++ [c] else ((w.userLeave c).channel ch').clients := by
  obtain ⟨hclient, hclients, hnextClient⟩ := client_userLeave w c
  have heq : w.userJoin ch c = ((w.userLeave c).modifyChannel ch fun channel =>
      { channel with clients := channel.clients ++ [c] }).modifyClient c fun client =>
        { client with channel := some ch } := by
    unfold userJoin
    rw [if_neg hne]
  have hsame := sameTree_members (w.userLeave c) ch (· ++ [c])
  rw [heq]
  refine ⟨⟨hsame.channels, hsame.nextChannel, hsame.defaultChan, hsame.id, hsame.temporary, hsame.parent, hsame.subs,
    hsame.links⟩, hclients, hnextClient, ?_, ?_⟩
  · intro c'
    split
    next heq =>
      rw [heq, modifyClient_self]
      exact congrArg (fun client : ClientPtr → Client => { client c with channel := some ch }) hclient
    next hc' =>
      rw [modifyClient_of_ne _ _ hc']
      exact congrFun hclient c'
  · intro ch'
    split
    next heq =>
      rw [heq]
      exact congrArg Channel.clients (modifyChannel_self (w.userLeave c) ch fun channel =>
        { channel with clients := channel.clients ++ [c] })
    next hch' =>
      exact congrArg Channel.clients (modifyChannel_of_ne (w.userLeave c)
        (fun channel => { channel with clients := channel.clients ++ [c] }) hch')

theorem sameClients_userJoin (w : Server) (ch : ChannelPtr) (c : ClientPtr) : SameClients w (w.userJoin ch c) := by
  by_cases hat : (w.client c).channel = some ch
  · unfold userJoin
    rw [if_pos hat]
    exact (Seated.refl w).toSameClients
  · obtain ⟨_, hclients, hnextClient, hclient, _⟩ := userJoin_fields hat
    refine ⟨hclients, hnextClient, ?_, ?_, ?_⟩
    all_goals
      intro c'
      rw [hclient]
      split
      next heq => rw [heq]
      next => rfl

/-- A client that is on its way arrives. -/
theorem Members.arrive {made : ChannelPtr → Prop} (h : Members (· = c) made (w.userLeave c)) (hc : c ∈ w.clients)
    (hauth : (w.client c).authenticated = true) (hch : ch ∈ (w.userLeave c).channels)
    (hne : (w.client c).channel ≠ some ch)
    (hmade : ∀ ch', made ch' → ch' = ch) : Members (fun _ => False) (fun _ => False) (w.userJoin ch c) := by
  obtain ⟨hwclient, hwclients, _⟩ := client_userLeave w c
  obtain ⟨hsame, hclients, _, hclient, hmembers⟩ := userJoin_fields hne
  have hjoined := h.joined
  have hchannel := h.channel
  have hback := h.clients
  rw [hwclient, hwclients] at hjoined hchannel hback
  constructor
  · intro c' hc' _
    rw [hclient]
    split
    next heq => exact ⟨fun _ => rfl, fun _ => hauth⟩
    next hc'ne => exact hjoined c' (hclients ▸ hc') hc'ne
  · intro c' hc' _ ch' hch'
    rw [hclient] at hch'
    rw [hsame.channels, hmembers]
    split at hch'
    next heq =>
      obtain rfl := Option.some.inj hch'
      rw [if_pos rfl, heq]
      exact ⟨hch, List.mem_append_right _ List.mem_cons_self⟩
    next hc'ne =>
      obtain ⟨hin, hmem⟩ := hchannel c' (hclients ▸ hc') hc'ne ch' hch'
      refine ⟨hin, ?_⟩
      split
      next heq =>
        rw [← heq]
        exact List.mem_append_left _ hmem
      next => exact hmem
  · intro ch' hch' c' hc'
    rw [hsame.channels] at hch'
    rw [hmembers] at hc'
    rw [hclients, hclient]
    have hcases : c' ∈ ((w.userLeave c).channel ch').clients ∨ ch' = ch ∧ c' = c := by
      split at hc'
      next heq =>
        rw [heq]
        exact (List.mem_append.mp hc').imp id fun hmem => ⟨rfl, List.mem_singleton.mp hmem⟩
      next => exact .inl hc'
    obtain hmem | ⟨rfl, rfl⟩ := hcases
    · obtain ⟨hin, hc'ne, hat⟩ := hback ch' hch' c' hmem
      rw [if_neg hc'ne]
      exact ⟨hin, id, hat⟩
    · rw [if_pos rfl]
      exact ⟨hc, id, rfl⟩
  · intro ch' hch'
    rw [hsame.channels] at hch'
    rw [hmembers]
    split
    next heq =>
      refine List.nodup_append.mpr ⟨h.nodup ch hch, List.nodup_singleton _, ?_⟩
      rintro c' hc' _ hmem rfl
      rw [List.mem_singleton.mp hmem] at hc'
      exact (h.clients ch hch c hc').2.1 rfl
    next => exact h.nodup ch' hch'
  · intro ch' hch' _ htrue
    rw [hsame.channels] at hch'
    rw [hsame.temporary] at htrue
    rw [hmembers]
    split
    next => exact List.append_ne_nil_of_right_ne_nil _ (List.cons_ne_nil _ _)
    next hch'ne => exact h.occupied ch' hch' (fun hm => hch'ne (hmade ch' hm)) htrue

/-- An authenticated client joins a channel, which may have been made for it. -/
theorem Members.userJoin {made : ChannelPtr → Prop} (h : Members (fun _ => False) made w) (htree : Tree w)
    (hc : c ∈ w.clients) (hauth : (w.client c).authenticated = true) (hch : ch ∈ w.channels)
    (hmade : ∀ ch', made ch' → ch' = ch) :
    Tree (w.userJoin ch c) ∧ Members (fun _ => False) (fun _ => False) (w.userJoin ch c) := by
  by_cases hat : (w.client c).channel = some ch
  · have hsame : w.userJoin ch c = w := by
      unfold Server.userJoin
      rw [if_pos hat]
    rw [hsame]
    refine ⟨htree, h.joined, h.channel, h.clients, h.nodup, fun ch' hch' _ htrue => ?_⟩
    by_cases hmade' : made ch'
    · rw [hmade ch' hmade']
      exact List.ne_nil_of_mem (h.channel c hc id ch hat).2
    · exact h.occupied ch' hch' hmade' htrue
  · obtain ⟨htree', haway, hkept⟩ := h.leave htree hc
    exact ⟨(userJoin_fields hat).1.tree htree', haway.arrive hc hauth (hkept ch hch hat) hat hmade⟩

theorem Coherent.userJoin (h : Coherent w) (hc : c ∈ w.clients) (hauth : (w.client c).authenticated = true)
    (hch : ch ∈ w.channels) : Coherent (w.userJoin ch c) := by
  obtain ⟨htree, hmembers⟩ := h.members.userJoin h.tree hc hauth hch fun _ => False.elim
  exact ⟨(sameClients_userJoin w ch c).sessions h.sessions, htree, hmembers⟩

theorem Coherent.clientAdd (h : Coherent w) (conf : Conf) : Coherent (w.clientAdd conf) := by
  have hfresh : w.nextClient ∉ w.clients := fun hin => absurd (h.sessions.old _ hin) (Nat.lt_irrefl _)
  have hcases : ∀ {c}, c ∈ (w.clientAdd conf).clients → c ∈ w.clients ∨ c = w.nextClient :=
    fun hc => (List.mem_append.mp hc).imp id List.mem_singleton.mp
  have hold : ∀ {c}, c ∈ w.clients → (w.clientAdd conf).client c = w.client c := by
    intro c hc
    refine Function.update_of_ne ?_ _ _
    rintro rfl
    exact hfresh hc
  have hnew : (w.clientAdd conf).client w.nextClient =
      { sessionId := w.findFreeSessionId, availableBandwidth := conf.maxBandwidth } := Function.update_self _ _ _
  have hwas : ∀ {c}, c ∈ (w.clientAdd conf).clients → ((w.clientAdd conf).client c).authenticated = true →
    c ∈ w.clients := by
    intro c hc hauth
    obtain hin | rfl := hcases hc
    · exact hin
    · rw [hnew] at hauth
      cases hauth
  refine ⟨⟨?_, ?_, ?_, ?_⟩, ?_, ⟨?_, ?_, ?_, h.members.nodup, h.members.occupied⟩⟩
  · intro c hc
    obtain hin | rfl := hcases hc
    · exact Nat.lt_succ_of_lt (h.sessions.old c hin)
    · exact Nat.lt_succ_self _
  · have hmap : (w.clientAdd conf).clients.map (fun c => ((w.clientAdd conf).client c).sessionId) =
        (w.clients.map fun c => (w.client c).sessionId) ++ [w.findFreeSessionId] := by
      change (w.clients ++ [w.nextClient]).map _ = _
      rw [List.map_append, List.map_singleton, hnew]
      exact congrArg (· ++ _) (List.map_congr_left fun c hc => by rw [hold hc])
    rw [hmap]
    refine List.nodup_append.mpr ⟨h.sessions.sessions, List.nodup_singleton _, ?_⟩
    rintro id hid _ hmem rfl
    rw [List.mem_singleton.mp hmem] at hid
    exact findFree_notMem 1 _ hid
  · intro c hc hauth
    have hin := hwas hc hauth
    rw [hold hin] at hauth ⊢
    exact h.sessions.named c hin hauth
  · intro c hc c' hc' hauth hauth'
    have hin := hwas hc hauth
    have hin' := hwas hc' hauth'
    rw [hold hin] at hauth ⊢
    rw [hold hin'] at hauth' ⊢
    exact h.sessions.names c hin c' hin' hauth hauth'
  · obtain ⟨old, ids, root, default, parents, subs, nodup, leaf, links⟩ := h.tree
    exact ⟨old, ids, root, default, parents, subs, nodup, leaf, links⟩
  · intro c hc _
    obtain hin | rfl := hcases hc
    · rw [hold hin]
      exact h.members.joined c hin id
    · rw [hnew]
      exact ⟨fun hauth => absurd hauth Bool.false_ne_true, fun hat => absurd hat Bool.false_ne_true⟩
  · intro c hc _ ch hat
    obtain hin | rfl := hcases hc
    · rw [hold hin] at hat
      exact h.members.channel c hin id ch hat
    · rw [hnew] at hat
      cases hat
  · intro ch hch c hc
    obtain ⟨hin, hstays, hat⟩ := h.members.clients ch hch c hc
    rw [hold hin]
    exact ⟨List.mem_append_left _ hin, hstays, hat⟩

theorem listened_userLeave (w : Server) (c : ClientPtr) :
    (w.userLeave c).m_listenedChannels = w.m_listenedChannels := by
  unfold userLeave freeChannel
  split
  · rfl
  · dsimp only
    repeat' split
    all_goals rfl

theorem clientFree_fields (w : Server) (c : ClientPtr) : (w.clientFree c).client = w.client ∧
    (w.clientFree c).clients = w.clients.erase c ∧ (w.clientFree c).nextClient = w.nextClient ∧
    (w.clientFree c).m_listenedChannels = w.m_listenedChannels := by
  obtain ⟨hclient, hclients, hnextClient⟩ := client_userLeave w c
  unfold clientFree
  split
  · exact ⟨hclient, congrArg (·.erase c) hclients, hnextClient, listened_userLeave w c⟩
  · exact ⟨rfl, rfl, rfl, rfl⟩

theorem Coherent.clientFree (h : Coherent w) (hc : c ∈ w.clients) : Coherent (w.clientFree c) := by
  have hleft : w.clientFree c = { w.userLeave c with clients := (w.userLeave c).clients.erase c } := by
    unfold Server.clientFree
    split
    next => rfl
    next hauth =>
      have hnone : (w.client c).channel = none := by
        rw [← Option.not_isSome_iff_eq_none, ← h.members.joined c hc id]
        exact hauth
      rw [userLeave, hnone]
  obtain ⟨hclient, hclients, hnextClient⟩ := client_userLeave w c
  obtain ⟨htree, haway, _⟩ := h.members.leave h.tree hc
  have hnodup : (w.userLeave c).clients.Nodup := hclients ▸ h.sessions.sessions.of_map _
  have hmem : ∀ {c'}, c' ∈ (w.userLeave c).clients.erase c → c' ≠ c ∧ c' ∈ (w.userLeave c).clients :=
    hnodup.mem_erase_iff.mp
  have hin : ∀ {c'}, c' ∈ (w.userLeave c).clients.erase c → c' ∈ w.clients := fun hc' => hclients ▸ (hmem hc').2
  rw [hleft]
  refine ⟨⟨?_, ?_, ?_, ?_⟩, ?_, ⟨?_, ?_, ?_, haway.nodup, haway.occupied⟩⟩
  · intro c' hc'
    exact lt_of_lt_of_eq (h.sessions.old c' (hin hc')) hnextClient.symm
  · refine List.Nodup.sublist (List.erase_sublist.map _) ?_
    rw [hclients, hclient]
    exact h.sessions.sessions
  · dsimp only
    rw [hclient]
    exact fun c' hc' => h.sessions.named c' (hin hc')
  · dsimp only
    rw [hclient]
    exact fun c' hc' c'' hc'' => h.sessions.names c' (hin hc') c'' (hin hc'')
  · obtain ⟨old, ids, root, default, parents, subs, nodup, leaf, links⟩ := htree
    exact ⟨old, ids, root, default, parents, subs, nodup, leaf, links⟩
  · exact fun c' hc' _ => haway.joined c' (hmem hc').2 (hmem hc').1
  · exact fun c' hc' _ => haway.channel c' (hmem hc').2 (hmem hc').1
  · intro ch hch c' hc'
    obtain ⟨hin', hne, hat⟩ := haway.clients ch hch c' hc'
    exact ⟨hnodup.mem_erase_iff.mpr ⟨hne, hin'⟩, id, hat⟩

theorem modifyClient_modifyClient (w : Server) (c : ClientPtr) (f g : Client → Client) :
    (w.modifyClient c f).modifyClient c g = w.modifyClient c (g ∘ f) := by
  unfold modifyClient
  dsimp only
  rw [Function.update_self, Function.update_idem]
  rfl

/-- A message that authenticates gives the client a name that no other has. -/
structure Named (w : Server) (c : ClientPtr) (name : Name) (f : Client → Client) : Prop where
  new : (w.client c).authenticated = false
  sessionId : (f (w.client c)).sessionId = (w.client c).sessionId
  username : (f (w.client c)).username = some name
  authenticated : (f (w.client c)).authenticated = true
  channel : (f (w.client c)).channel = (w.client c).channel
  nonempty : 0 < name.length
  short : name.length < MAX_USERNAME
  unused : ∀ c' ∈ w.clients, (w.client c').authenticated = true → ∀ name', (w.client c').username = some name' →
    strnEq name' name MAX_USERNAME = false

theorem authenticate_cases (w : Server) (conf : Conf) (banned : Bool) (c : ClientPtr) (msg : Authenticate) :
    Seated w (w.authenticate conf banned c msg) ∨ ∃ f, Named w c (cstr msg.username) f ∧
      w.authenticate conf banned c msg = (w.modifyClient c f).userJoin w.defaultChan c := by
  unfold authenticate
  dsimp only
  split
  next =>
    refine .inl (seated_modifyClient w c ?_ ?_ ?_ ?_)
    all_goals rw [addTokens_eq]
  next hnew =>
    split
    next => exact .inl (seated_clientClose w c)
    next =>
      split
      next => exact .inl (seated_clientClose w c)
      next hunused =>
        split
        next => exact .inl (seated_clientClose w c)
        next =>
          split
          next => exact .inl (seated_clientClose w c)
          next hlength =>
            split
            next => exact .inl (seated_clientClose w c)
            next =>
              have hfree : ∀ c' ∈ w.clients, (w.client c').authenticated = true → ∀ name',
                  (w.client c').username = some name' → strnEq name' (cstr msg.username) MAX_USERNAME = false := by
                intro c' hc' hauth name' hname'
                simp only [List.any_eq_true, not_exists, not_and] at hunused
                have hnot := hunused c' hc'
                rw [hauth, hname'] at hnot
                simpa using hnot
              rw [modifyClient_modifyClient]
              refine .inr ⟨_, ⟨by simpa using hnew, ?_, ?_, ?_, ?_, by omega, by omega, hfree⟩, rfl⟩
              all_goals
                rw [Function.comp_apply, addTokens_eq]

theorem strnEq_self {s : Name} {n : Nat} : strnEq s s n = true := beq_self_eq_true _

theorem Named.sessions {name : Name} {f : Client → Client} (h : Named w c name f) (hsessions : Sessions w) :
    Sessions (w.modifyClient c f) := by
  have hcases : ∀ {c'}, ((w.modifyClient c f).client c').authenticated = true →
      c' = c ∨ c' ≠ c ∧ (w.modifyClient c f).client c' = w.client c' ∧ (w.client c').authenticated = true := by
    intro c' hauth
    by_cases heq : c' = c
    · exact .inl heq
    · rw [modifyClient_of_ne w f heq] at hauth
      exact .inr ⟨heq, modifyClient_of_ne w f heq, hauth⟩
  have hother : ∀ {c'}, c' ∈ w.clients → (w.client c').authenticated = true → (w.client c').username ≠ some name := by
    intro c' hc' hauth hname
    have hnot := h.unused c' hc' hauth name hname
    rw [strnEq_self] at hnot
    cases hnot
  refine ⟨hsessions.old, ?_, ?_, ?_⟩
  · rw [funext (modifyClient_eq Client.sessionId w c h.sessionId)]
    exact hsessions.sessions
  · intro c' hc' hauth
    obtain rfl | ⟨_, heq, hauth⟩ := hcases hauth
    · rw [modifyClient_self]
      exact ⟨name, h.username, h.nonempty, h.short⟩
    · rw [heq]
      exact hsessions.named c' hc' hauth
  · intro c₁ hc₁ c₂ hc₂ hauth₁ hauth₂ hname
    obtain rfl | ⟨_, heq₁, hwas₁⟩ := hcases hauth₁
    · obtain rfl | ⟨_, heq₂, hwas₂⟩ := hcases hauth₂
      · rfl
      · rw [modifyClient_self, h.username, heq₂] at hname
        exact absurd hname.symm (hother hc₂ hwas₂)
    · obtain rfl | ⟨_, heq₂, hwas₂⟩ := hcases hauth₂
      · rw [modifyClient_self, h.username, heq₁] at hname
        exact absurd hname (hother hc₁ hwas₁)
      · rw [heq₁, heq₂] at hname
        exact hsessions.names c₁ hc₁ c₂ hc₂ hwas₁ hwas₂ hname

theorem Coherent.authenticate (h : Coherent w) (conf : Conf) (banned : Bool) (hc : c ∈ w.clients)
    (msg : Authenticate) :
    Coherent (w.authenticate conf banned c msg) := by
  obtain hseated | ⟨f, hnamed, heq⟩ := authenticate_cases w conf banned c msg
  · exact hseated.coherent h
  have hnone : (w.client c).channel = none := by
    rw [← Option.not_isSome_iff_eq_none, ← h.members.joined c hc id, hnamed.new]
    exact Bool.false_ne_true
  have hat : ((w.modifyClient c f).client c).channel = none := by rw [modifyClient_self, hnamed.channel, hnone]
  have hstays : (w.modifyClient c f).userLeave c = w.modifyClient c f := by rw [userLeave, hat]
  have hothers : ∀ c' ≠ c, (w.modifyClient c f).client c' = w.client c' := fun _ => modifyClient_of_ne w f
  -- The client is nowhere yet, so it is on its way.
  have haway : Members (· = c) (fun _ => False) ((w.modifyClient c f).userLeave c) := by
    rw [hstays]
    refine ⟨?_, ?_, ?_, h.members.nodup, h.members.occupied⟩
    · intro c' hc' hne
      rw [hothers c' hne]
      exact h.members.joined c' hc' id
    · intro c' hc' hne
      rw [hothers c' hne]
      exact h.members.channel c' hc' id
    · intro ch hch c' hc'
      obtain ⟨hin, _, hat'⟩ := h.members.clients ch hch c' hc'
      have hne : c' ≠ c := by
        rintro rfl
        rw [hnone] at hat'
        cases hat'
      rw [hothers c' hne]
      exact ⟨hin, hne, hat'⟩
  have htree : Tree ((w.modifyClient c f).userLeave c) := by
    rw [hstays]
    obtain ⟨old, ids, root, default, parents, subs, nodup, leaf, links⟩ := h.tree
    exact ⟨old, ids, root, default, parents, subs, nodup, leaf, links⟩
  have hne : ((w.modifyClient c f).client c).channel ≠ some w.defaultChan := by
    rw [hat]
    exact (Option.some_ne_none _).symm
  rw [heq]
  refine ⟨(sameClients_userJoin _ _ _).sessions (hnamed.sessions h.sessions), (userJoin_fields hne).1.tree htree,
    haway.arrive hc ?_ ?_ hne fun _ => False.elim⟩
  · rw [modifyClient_self, hnamed.authenticated]
  · rw [hstays]
    exact h.tree.default.1

end Server

end mumble
