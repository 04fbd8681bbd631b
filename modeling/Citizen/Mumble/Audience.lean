import Citizen.Mumble.MembershipRuns

open Bits
open Transition

namespace mumble

namespace Server

variable {conf : Conf} {w w' : Server} {c dst : ClientPtr} {ch sub : ChannelPtr}

def InChannel (w : Server) (c : ClientPtr) (ch : ChannelPtr) : Prop := (w.client c).channel = some ch

def Listens (w : Server) (c : ClientPtr) (ch : ChannelPtr) : Prop :=
  (w.client c).sessionId ∈ w.m_listenedChannels (w.channel ch).id

/-- A channel and those below it. -/
def Below (w : Server) : ChannelPtr → ChannelPtr → Prop :=
  Relation.ReflTransGen fun sub ch => (w.channel sub).parent = some ch

/-- A client in a linked channel hears what is whispered to a channel, and so does one that listens to the link and
does not hear the channel itself. Who is in the link and listens to it as well does not. -/
def HearsLink (w : Server) (c : ClientPtr) (ch ch_link : ChannelPtr) : Prop :=
  w.Listens c ch_link ∧ ¬ w.InChannel c ch ∧ ¬ w.Listens c ch ∨ w.InChannel c ch_link ∧ ¬ w.Listens c ch_link

def HearsChannel (w : Server) (c : ClientPtr) (target : ChannelTarget) : Prop :=
  ∃ ch ∈ w.channels, (w.channel ch).id = target.channel ∧
    (w.InChannel c ch ∨ w.Listens c ch ∨
      target.linked = true ∧ (∃ ch_link ∈ (w.channel ch).channel_links, w.HearsLink c ch ch_link) ∨
      target.children = true ∧ ∃ sub ∈ w.channels, w.Below sub ch ∧ w.InChannel c sub)

/-- A client that is whispered to itself, outside of the channels that are. -/
def HearsSession (w : Server) (c : ClientPtr) (vt : VoiceTarget) : Prop :=
  (w.client c).sessionId ∈ vt.sessions ∧
    ∀ ch, w.InChannel c ch → ∀ target ∈ vt.channels, (w.channel ch).id ≠ target.channel

/-- Who may hear a client that speaks in a channel, to a target. -/
def Hears (w : Server) (speaker : ClientPtr) (ch : ChannelPtr) (target : Nat) (c : ClientPtr) : Prop :=
  if target = 0 then w.InChannel c ch ∨ w.Listens c ch
  else ∃ vt, (w.client speaker).voicetargets.find? (·.id = target) = some vt ∧
    ((∃ channel ∈ vt.channels, w.HearsChannel c channel) ∨ w.HearsSession c vt)

theorem Coherent.mem_clients (h : Coherent w) (hch : ch ∈ w.channels) :
    c ∈ (w.channel ch).clients ↔ c ∈ w.clients ∧ w.InChannel c ch := by
  constructor
  · intro hc
    obtain ⟨hin, _, hat⟩ := h.members.clients ch hch c hc
    exact ⟨hin, hat⟩
  · rintro ⟨hin, hat⟩
    exact (h.members.channel c hin id ch hat).2

theorem Coherent.bySession (h : Coherent w) (hc : c ∈ w.clients) : w.bySession (w.client c).sessionId = some c := by
  unfold Server.bySession
  cases hfind : w.clients.find? fun c' => (w.client c').sessionId = (w.client c).sessionId with
  | none => exact absurd (List.find?_eq_none.mp hfind c hc) (by simp)
  | some c' =>
    have hsame : (w.client c').sessionId = (w.client c).sessionId := by simpa using List.find?_some hfind
    exact congrArg some (List.inj_on_of_nodup_map h.sessions.sessions (List.mem_of_find?_eq_some hfind) hc hsame)

theorem Coherent.mem_listenersForChannel (h : Coherent w) :
    c ∈ w.listenersForChannel ch ↔ c ∈ w.clients ∧ w.Listens c ch := by
  unfold Server.listenersForChannel
  rw [List.mem_filter]
  refine and_congr_right fun hc => ?_
  rw [h.bySession hc]
  simp [Listens]

theorem Coherent.mem_channelSpeech (h : Coherent w) (hch : ch ∈ w.channels) :
    c ∈ w.channelSpeech ch ↔ c ∈ w.clients ∧ (w.InChannel c ch ∨ w.Listens c ch) := by
  unfold Server.channelSpeech
  rw [List.mem_append, h.mem_clients hch, h.mem_listenersForChannel, and_or_left]

theorem isListening_iff : w.isListening (w.client c).sessionId (w.channel ch).id = true ↔ w.Listens c ch :=
    decide_eq_true_iff

theorem Coherent.mem_linkSpeech (h : Coherent w) {ch_link : ChannelPtr} (hlink : ch_link ∈ w.channels) :
    c ∈ w.linkSpeech ch ch_link ↔ c ∈ w.clients ∧ w.HearsLink c ch ch_link := by
  unfold Server.linkSpeech HearsLink
  have hnot : ∀ ch, w.isListening (w.client c).sessionId (w.channel ch).id = false ↔ ¬ w.Listens c ch := by
    intro ch
    rw [← isListening_iff, Bool.not_eq_true]
  rw [List.mem_append, List.mem_filter, List.mem_filter, h.mem_listenersForChannel, h.mem_clients hlink]
  simp only [decide_eq_true_eq, hnot, InChannel, ne_eq]
  tauto

theorem Tree.parent (h : Tree w) (hsub : sub ∈ w.channels) (hparent : (w.channel sub).parent = some ch) :
    ch ∈ w.channels ∧ ch < sub ∧ sub ∈ (w.channel ch).subs := by
  have hne : sub ≠ 0 := by
    rintro rfl
    rw [h.root.2.2.1] at hparent
    cases hparent
  obtain ⟨parent, hin, holder, hat, _, hmem⟩ := h.parents sub hsub hne
  obtain rfl := Option.some.inj (hat.symm.trans hparent)
  exact ⟨hin, holder, hmem⟩

theorem Tree.mem_of_below (h : Tree w) (hbelow : w.Below sub ch) (hsub : sub ∈ w.channels) : ch ∈ w.channels := by
  induction hbelow with
  | refl => exact hsub
  | tail _ hparent ih => exact (h.parent ih hparent).1

/-- The channels below a channel are made after it, so the walk ends. -/
theorem Tree.mem_buildTreeList (h : Tree w) {fuel : Nat} (hch : ch ∈ w.channels)
    (hfuel : (w.channels.filter (ch ≤ ·)).length ≤ fuel) :
    sub ∈ w.buildTreeList fuel ch ↔ sub ∈ w.channels ∧ w.Below sub ch := by
  induction fuel generalizing ch with
  | zero =>
    have hnone := List.eq_nil_of_length_eq_zero (Nat.le_zero.mp hfuel)
    have hin : ch ∈ w.channels.filter (ch ≤ ·) := List.mem_filter.mpr ⟨hch, decide_eq_true (Nat.le_refl ch)⟩
    rw [hnone] at hin
    cases hin
  | succ fuel ih =>
    have hless : ∀ {child}, ch < child → (w.channels.filter (child ≤ ·)).length ≤ fuel := by
      intro child hlt
      have hsub : ch :: w.channels.filter (child ≤ ·) ⊆ w.channels.filter (ch ≤ ·) := by
        intro other hother
        obtain rfl | hother := List.mem_cons.mp hother
        · exact List.mem_filter.mpr ⟨hch, decide_eq_true (Nat.le_refl other)⟩
        · obtain ⟨hin, hle⟩ := List.mem_filter.mp hother
          exact List.mem_filter.mpr ⟨hin, decide_eq_true (hlt.le.trans (of_decide_eq_true hle))⟩
      have hnodup : (ch :: w.channels.filter (child ≤ ·)).Nodup := by
        refine List.nodup_cons.mpr ⟨fun hin => ?_, h.channelsNodup.filter _⟩
        exact absurd (of_decide_eq_true (List.mem_filter.mp hin).2) (Nat.not_le.mpr hlt)
      have hlen := (hnodup.subperm hsub).length_le
      rw [List.length_cons] at hlen
      omega
    unfold Server.buildTreeList
    rw [List.mem_cons, List.mem_flatMap]
    constructor
    · rintro (rfl | ⟨child, hchild, hmem⟩)
      · exact ⟨hch, .refl⟩
      · obtain ⟨hin, hparent⟩ := h.subs ch hch child hchild
        obtain ⟨hsub, hbelow⟩ := (ih hin (hless (h.parent hin hparent).2.1)).mp hmem
        exact ⟨hsub, hbelow.tail hparent⟩
    · rintro ⟨hsub, hbelow⟩
      obtain rfl | ⟨child, hbelow, hparent⟩ := hbelow.cases_tail
      · exact .inl rfl
      · have hin := h.mem_of_below hbelow hsub
        obtain ⟨_, hlt, hmem⟩ := h.parent hin hparent
        exact .inr ⟨child, hmem, (ih hin (hless hlt)).mpr ⟨hsub, hbelow⟩⟩

theorem Tree.fromId_eq_some (h : Tree w) {channelid : Nat} :
    w.fromId channelid = some ch ↔ ch ∈ w.channels ∧ (w.channel ch).id = channelid := by
  refine ⟨mem_of_fromId, fun ⟨hin, hid⟩ => ?_⟩
  cases hfrom : w.fromId channelid with
  | none => exact absurd (List.find?_eq_none.mp hfrom ch hin) (by simpa using hid)
  | some found =>
    obtain ⟨hfound, hsame⟩ := mem_of_fromId hfrom
    exact congrArg some (List.inj_on_of_nodup_map h.ids hfound hin (hsame.trans hid.symm))

theorem Coherent.mem_whisperChannel (h : Coherent w) (target : ChannelTarget) :
    c ∈ w.whisperChannel target ↔ c ∈ w.clients ∧ w.HearsChannel c target := by
  unfold Server.whisperChannel
  cases hfrom : w.fromId target.channel with
  | none =>
    refine ⟨fun hc => absurd hc List.not_mem_nil, fun ⟨_, ch, hin, hid, _⟩ => ?_⟩
    rw [h.tree.fromId_eq_some.mpr ⟨hin, hid⟩] at hfrom
    cases hfrom
  | some ch =>
    obtain ⟨hin, hid⟩ := mem_of_fromId hfrom
    have hlinked : c ∈ (if target.linked then (w.channel ch).channel_links.flatMap (w.linkSpeech ch) else []) ↔
        c ∈ w.clients ∧ target.linked = true ∧ ∃ ch_link ∈ (w.channel ch).channel_links, w.HearsLink c ch ch_link := by
      split
      next htrue =>
        rw [List.mem_flatMap]
        constructor
        · rintro ⟨ch_link, hlink, hc⟩
          obtain ⟨hclient, hhears⟩ := (h.mem_linkSpeech (h.tree.links ch hin ch_link hlink).1).mp hc
          exact ⟨hclient, htrue, ch_link, hlink, hhears⟩
        · rintro ⟨hclient, _, ch_link, hlink, hhears⟩
          exact ⟨ch_link, hlink, (h.mem_linkSpeech (h.tree.links ch hin ch_link hlink).1).mpr ⟨hclient, hhears⟩⟩
      next hfalse => exact ⟨fun hc => absurd hc List.not_mem_nil, fun ⟨_, htrue, _⟩ => absurd htrue hfalse⟩
    have hchildren : c ∈ (if target.children then
          (w.buildTreeList w.channels.length ch).flatMap fun sub => (w.channel sub).clients else []) ↔
        c ∈ w.clients ∧ target.children = true ∧ ∃ sub ∈ w.channels, w.Below sub ch ∧ w.InChannel c sub := by
      split
      next htrue =>
        rw [List.mem_flatMap]
        constructor
        · rintro ⟨sub, hsub, hc⟩
          obtain ⟨hsub, hbelow⟩ := (h.tree.mem_buildTreeList hin (List.length_filter_le _ _)).mp hsub
          obtain ⟨hclient, hat⟩ := (h.mem_clients hsub).mp hc
          exact ⟨hclient, htrue, sub, hsub, hbelow, hat⟩
        · rintro ⟨hclient, _, sub, hsub, hbelow, hat⟩
          exact ⟨sub, (h.tree.mem_buildTreeList hin (List.length_filter_le _ _)).mpr ⟨hsub, hbelow⟩,
            (h.mem_clients hsub).mpr ⟨hclient, hat⟩⟩
      next hfalse => exact ⟨fun hc => absurd hc List.not_mem_nil, fun ⟨_, htrue, _⟩ => absurd htrue hfalse⟩
    dsimp only
    rw [List.mem_append, List.mem_append, h.mem_channelSpeech hin, hlinked, hchildren, ← and_or_left, ← and_or_left]
    refine and_congr_right fun _ => ?_
    unfold HearsChannel
    constructor
    · rintro ((hspeech | hlink) | hchild)
      · exact ⟨ch, hin, hid, hspeech.imp id .inl⟩
      · exact ⟨ch, hin, hid, .inr (.inr (.inl hlink))⟩
      · exact ⟨ch, hin, hid, .inr (.inr (.inr hchild))⟩
    · rintro ⟨other, hother, hsame, hhears⟩
      obtain rfl := List.inj_on_of_nodup_map h.tree.ids hother hin (hsame.trans hid.symm)
      obtain hat | hlistens | hlink | hchild := hhears
      · exact .inl (.inl (.inl hat))
      · exact .inl (.inl (.inr hlistens))
      · exact .inl (.inr hlink)
      · exact .inr hchild

theorem find?_eq_some_of_unique {α : Type} {p : α → Bool} {l : List α} {a : α}
    (hunique : ∀ b ∈ l, p b = true → p a = true → a ∈ l → b = a) : l.find? p = some a ↔ a ∈ l ∧ p a = true := by
  refine ⟨fun hfind => ⟨List.mem_of_find?_eq_some hfind, List.find?_some hfind⟩, fun ⟨hin, ha⟩ => ?_⟩
  cases hfind : l.find? p with
  | none => exact absurd ha (List.find?_eq_none.mp hfind a hin)
  | some b => exact congrArg some (hunique b (List.mem_of_find?_eq_some hfind) (List.find?_some hfind) ha hin)

theorem Coherent.mem_whisper (h : Coherent w) (vt : VoiceTarget) :
    c ∈ w.whisper vt ↔ c ∈ w.clients ∧ ((∃ target ∈ vt.channels, w.HearsChannel c target) ∨ w.HearsSession c vt) := by
  have htargeted : ∀ {ch}, w.InChannel c ch → c ∈ w.clients →
      ((w.channel ch).id ∉ vt.channels.filterMap
        (fun target => (w.fromId target.channel).map fun ch => (w.channel ch).id) ↔ ∀ target ∈ vt.channels,
          (w.channel ch).id ≠ target.channel) := by
    intro ch hat hc
    have hin := (h.members.channel c hc id ch hat).1
    rw [List.mem_filterMap]
    constructor
    · intro hnot target htarget hid
      refine hnot ⟨target, htarget, ?_⟩
      rw [h.tree.fromId_eq_some.mpr ⟨hin, hid⟩]
      rfl
    · rintro hnone ⟨target, htarget, hmap⟩
      obtain ⟨found, hfound, hsame⟩ := Option.map_eq_some_iff.mp hmap
      exact hnone target htarget (hsame.symm.trans (mem_of_fromId hfound).2)
  have hsession : (∃ session ∈ vt.sessions, w.whisperSession
      (vt.channels.filterMap fun target => (w.fromId target.channel).map fun ch => (w.channel ch).id) session =
        some c) ↔
      c ∈ w.clients ∧ w.HearsSession c vt := by
    have hfound : ∀ targeted session, w.whisperSession targeted session = some c ↔ c ∈ w.clients ∧
        (w.client c).sessionId = session ∧ ∀ ch, w.InChannel c ch → (w.channel ch).id ∉ targeted := by
      intro targeted session
      unfold Server.whisperSession
      rw [find?_eq_some_of_unique]
      · simp [InChannel, Option.all_eq_true]
      · intro c' hc' hp' hp hc
        simp only [Bool.decide_and, Bool.and_eq_true, decide_eq_true_eq] at hp hp'
        exact List.inj_on_of_nodup_map h.sessions.sessions hc' hc (hp'.1.trans hp.1.symm)
    simp only [hfound]
    constructor
    · rintro ⟨session, hsession, hc, rfl, houtside⟩
      exact ⟨hc, hsession, fun ch hat => (htargeted hat hc).mp (houtside ch hat)⟩
    · rintro ⟨hc, hsession, houtside⟩
      exact ⟨_, hsession, hc, rfl, fun ch hat => (htargeted hat hc).mpr (houtside ch hat)⟩
  unfold Server.whisper
  dsimp only
  rw [List.mem_append, List.mem_flatMap, List.mem_filterMap, hsession, and_or_left]
  refine or_congr ?_ Iff.rfl
  constructor
  · rintro ⟨target, htarget, hc⟩
    obtain ⟨hclient, hhears⟩ := (h.mem_whisperChannel target).mp hc
    exact ⟨hclient, target, htarget, hhears⟩
  · rintro ⟨hclient, target, htarget, hhears⟩
    exact ⟨target, htarget, (h.mem_whisperChannel target).mpr ⟨hclient, hhears⟩⟩

theorem nodup_listeningUsers (w : Server) (c : ClientPtr) (ch : ChannelPtr) (target : Nat) :
    (w.listeningUsers c ch target).Nodup := by
  unfold listeningUsers
  split
  · exact List.nodup_dedup _
  · split
    · exact List.nodup_nil
    · exact List.nodup_dedup _

theorem Coherent.mem_listeningUsers (h : Coherent w) (hch : ch ∈ w.channels) (target : Nat) :
    dst ∈ w.listeningUsers c ch target ↔ dst ∈ w.clients ∧ w.Hears c ch target dst := by
  unfold Server.listeningUsers Hears
  split
  · rw [List.mem_dedup, h.mem_channelSpeech hch]
  · split
    next hnone => simp [hnone]
    next vt hsome =>
      rw [List.mem_dedup, h.mem_whisper]
      simp [hsome]

/-- The one who speaks is heard in its channel, and has bandwidth left for the packet. -/
structure Speaks (w : Server) (c : ClientPtr) (data : List Byte) (ch : ChannelPtr) : Prop where
  authenticated : (w.client c).authenticated = true
  unmuted : (w.client c).mute = false ∧ (w.client c).self_mute = false
  inChannel : w.InChannel c ch
  loud : (w.channel ch).silent = false
  bandwidth : (packetsize data : Int) ≤ (w.client c).availableBandwidth

/-- One that is not the speaker, and is not deaf. -/
structure CanHear (w : Server) (speaker c : ClientPtr) : Prop where
  client : c ∈ w.clients
  other : c ≠ speaker
  authenticated : (w.client c).authenticated = true
  undeafened : (w.client c).deaf = false ∧ (w.client c).self_deaf = false

/-- Those whom a packet is for. A loopback is for the speaker alone. -/
def Reached (w : Server) (c : ClientPtr) (data : List Byte) (dst : ClientPtr) : Prop :=
  ∃ ch, w.Speaks c data ch ∧
    if (data.headD 0).toNat &&& 0x1f = 0x1f then dst = c
    else w.Hears c ch ((data.headD 0).toNat &&& 0x1f) dst ∧ w.CanHear c dst

theorem relaysTo_eq_some {data : List Byte} : w.relaysTo c data = some ch ↔ w.Speaks c data ch := by
  unfold relaysTo speaksIn
  constructor
  · intro hrelays
    split at hrelays
    next => cases hrelays
    next hbandwidth =>
      obtain ⟨⟨hauth, hmute, hself⟩, hchannel⟩ := Option.ite_none_right_eq_some.mp hrelays
      obtain ⟨hat, hloud⟩ := Option.filter_eq_some_iff.mp hchannel
      exact ⟨hauth, ⟨hmute, hself⟩, hat, by simpa using hloud, by omega⟩
  · rintro ⟨hauth, ⟨hmute, hself⟩, hat, hloud, hbandwidth⟩
    rw [if_neg (by omega), if_pos ⟨hauth, hmute, hself⟩]
    exact Option.filter_eq_some_iff.mpr ⟨hat, by simp [hloud]⟩

theorem map_fst_sendVoice (w : Server) (src : ClientPtr) (data : List Byte) (poslen : Nat) (users : List ClientPtr) :
    (users.filterMap fun dst => w.sendVoice src dst data poslen).map Prod.fst = users.filter fun dst =>
      (w.client dst).authenticated = true ∧ dst ≠ src ∧ (w.client dst).deaf = false ∧
        (w.client dst).self_deaf = false := by
  rw [List.map_filterMap, ← List.filterMap_eq_filter]
  congr 1
  funext dst
  unfold sendVoice Option.guard
  simp only [decide_eq_true_eq]
  split <;> rfl

/-- What a packet costs has nothing to do with who hears it. -/
theorem hears_modifyClient {f : Client → Client} (hsession : (f (w.client c)).sessionId = (w.client c).sessionId)
    (hchannel : (f (w.client c)).channel = (w.client c).channel)
    (htargets : (f (w.client c)).voicetargets = (w.client c).voicetargets) {src : ClientPtr} (target : Nat) :
    (w.modifyClient c f).Hears src ch target dst ↔ w.Hears src ch target dst := by
  unfold Hears HearsChannel HearsSession HearsLink Listens InChannel
  simp only [modifyClient_eq Client.sessionId w c hsession, modifyClient_eq Client.channel w c hchannel,
    modifyClient_eq Client.voicetargets w c htargets]
  exact Iff.rfl

/-- A packet reaches exactly those whom it is for, each of them once. -/
theorem Coherent.audience (h : Coherent w) {data : List Byte} {sent : List (ClientPtr × List Byte)}
    (hc : c ∈ w.clients) (hvoice : w.voiceMsg c data = some (w', sent)) :
    (sent.map Prod.fst).Nodup ∧ ∀ dst, dst ∈ sent.map Prod.fst ↔ w.Reached c data dst := by
  unfold voiceMsg at hvoice
  split at hvoice
  next hnone =>
    obtain ⟨_, rfl⟩ := Prod.mk.inj (Option.some.inj hvoice)
    refine ⟨List.nodup_nil, fun dst => ⟨fun hdst => absurd hdst List.not_mem_nil, ?_⟩⟩
    rintro ⟨ch, hspeaks, _⟩
    rw [relaysTo_eq_some.mpr hspeaks] at hnone
    cases hnone
  next ch hrelays =>
    have hspeaks := relaysTo_eq_some.mp hrelays
    have hreached : ∀ dst, w.Reached c data dst ↔ if (data.headD 0).toNat &&& 0x1f = 0x1f then dst = c
        else w.Hears c ch ((data.headD 0).toNat &&& 0x1f) dst ∧ w.CanHear c dst := by
      intro dst
      refine ⟨?_, fun hdst => ⟨ch, hspeaks, hdst⟩⟩
      rintro ⟨ch', hspeaks', hdst⟩
      obtain rfl := Option.some.inj (hspeaks'.inChannel.symm.trans hspeaks.inChannel)
      exact hdst
    dsimp only at hvoice
    split at hvoice
    next hloop =>
      obtain ⟨_, rfl⟩ := Prod.mk.inj (Option.some.inj hvoice)
      refine ⟨List.nodup_singleton c, fun dst => ?_⟩
      rw [hreached, if_pos hloop]
      exact List.mem_singleton
    next hloop =>
      split at hvoice
      next => cases hvoice
      next =>
        obtain ⟨_, rfl⟩ := Prod.mk.inj (Option.some.inj hvoice)
        have hseated := seated_modifyClient w c (f := fun client =>
          { client with availableBandwidth := client.availableBandwidth - packetsize data }) rfl rfl rfl rfl
        have hin := (h.members.channel c hc id ch hspeaks.inChannel).1
        rw [map_fst_sendVoice]
        refine ⟨(nodup_listeningUsers _ c ch _).filter _, fun dst => ?_⟩
        rw [hreached, if_neg hloop, List.mem_filter, (hseated.coherent h).mem_listeningUsers hin,
          hears_modifyClient rfl rfl rfl]
        have hdeaf := modifyClient_eq Client.deaf w c (f := fun client =>
          { client with availableBandwidth := client.availableBandwidth - packetsize data }) rfl dst
        have hself := modifyClient_eq Client.self_deaf w c (f := fun client =>
          { client with availableBandwidth := client.availableBandwidth - packetsize data }) rfl dst
        rw [decide_eq_true_iff, hseated.authenticated, hdeaf, hself]
        constructor
        · rintro ⟨⟨hclient, hhears⟩, hauth, hne, hundeafened⟩
          exact ⟨hhears, hclient, hne, hauth, hundeafened⟩
        · rintro ⟨hhears, hclient, hne, hauth, hundeafened⟩
          exact ⟨⟨hclient, hhears⟩, hauth, hne, hundeafened⟩

/-- In every state that the server reaches, a packet is sent to exactly those whom it is for, and once. The
invariant `Coherent` carries it: a client is in one channel at most, and a session is of one client. -/
theorem audience_of_run {channels : List ConfChannel} {defaultChannelName : Name} {links : List (Name × Name)}
    {w₀ : Server} {acts : List Action} {data : List Byte} {sent : List (ClientPtr × List Byte)}
    (hinit : chanInit channels defaultChannelName links = some w₀) (hrun : Run (step conf) MovesMember w₀ acts w)
    (hc : c ∈ w.clients) (hvoice : w.voiceMsg c data = some (w', sent)) :
    (sent.map Prod.fst).Nodup ∧ ∀ dst, dst ∈ sent.map Prod.fst ↔ w.Reached c data dst :=
  (coherent_of_run hinit hrun).audience hc hvoice

/-- Three clients. The third makes a channel of its own, listens to the lobby, and the first sets a whisper to the
lobby. -/
def listenActs : List Action :=
  [.connect, .connect, .connect, .authenticate 0 false ⟨[65#8], [], []⟩, .authenticate 1 false ⟨[66#8], [], []⟩,
    .authenticate 2 false ⟨[67#8], [], []⟩, .channelState 2 ⟨none, some 1, some [88#8], true⟩,
    .userState 2 { listening_channel_add := [1] }, .voiceTarget 0 5 [⟨[], some 1, false, true⟩]]

theorem audience_of_run_listener : ∃ w₀ w w' sent, chanInit twoChannels [76#8] [] = some w₀ ∧
    Run (step plainConf) MovesMember w₀ listenActs w ∧ w.voiceMsg 0 [0x85#8, 1#8, 2#8, 9#8, 9#8] = some (w', sent) ∧
    sent.map Prod.fst = [1, 2] ∧ ((sent.map Prod.fst).Nodup ∧
      ∀ dst, dst ∈ sent.map Prod.fst ↔ w.Reached 0 [0x85#8, 1#8, 2#8, 9#8, 9#8] dst) := by
  have hend : (exec (fun w a => if movesMemberCheck w a then step plainConf w a else none)
      ((chanInit twoChannels [76#8] []).get twoChannels_isSome) listenActs).any
      (fun w => 0 ∈ w.clients ∧ (w.voiceMsg 0 [0x85#8, 1#8, 2#8, 9#8, 9#8]).map (fun r => r.2.map Prod.fst) =
        some [1, 2]) =
      true := by decide +kernel
  obtain ⟨w, hrun, hend⟩ := exists_checked movesMember_of_check hend
  have hinit := (Option.some_get twoChannels_isSome).symm
  obtain ⟨hc, hsent⟩ := of_decide_eq_true hend
  obtain ⟨⟨w', sent⟩, hvoice, hfst⟩ := Option.map_eq_some_iff.mp hsent
  exact ⟨_, w, w', sent, hinit, hrun, hvoice, hfst, audience_of_run hinit hrun hc hvoice⟩

end Server

end mumble
