import Citizen.Lib.Loop
import Citizen.Mumble.Messages
import Mathlib.Data.List.Nodup

open Bits

namespace mumble

namespace Server

variable {w w₁ w' : Server} {c : ClientPtr} {ch parent : ChannelPtr}

theorem findFree_notMem (first : Nat) (used : List Nat) : findFree first used ∉ used := by
  unfold findFree
  cases h : (List.range' first (used.length + 1)).find? (· ∉ used) with
  | some id => simpa using List.find?_some h
  | none =>
    have hsub : List.range' first (used.length + 1) ⊆ used := by
      intro id hid
      simpa using List.find?_eq_none.mp h id hid
    have hnodup : (List.range' first (used.length + 1)).Nodup := List.nodup_range'
    have hlen := (hnodup.subperm hsub).length_le
    rw [List.length_range'] at hlen
    omega

/-- The channels are a tree below the root, with unique numbers. Temporary channels are leaves. -/
structure Tree (w : Server) : Prop where
  old : ∀ ch ∈ w.channels, ch < w.nextChannel
  ids : (w.channels.map fun ch => (w.channel ch).id).Nodup
  root : 0 ∈ w.channels ∧ (w.channel 0).temporary = false ∧ (w.channel 0).parent = none ∧ (w.channel 0).id = 0
  default : w.defaultChan ∈ w.channels ∧ (w.channel w.defaultChan).temporary = false
  parents : ∀ ch ∈ w.channels, ch ≠ 0 → ∃ parent ∈ w.channels, parent < ch ∧ (w.channel ch).parent = some parent ∧
    (w.channel parent).temporary = false ∧ ch ∈ (w.channel parent).subs
  subs : ∀ parent ∈ w.channels, ∀ ch ∈ (w.channel parent).subs, ch ∈ w.channels ∧ (w.channel ch).parent = some parent
  nodup : ∀ parent ∈ w.channels, (w.channel parent).subs.Nodup
  leaf : ∀ ch ∈ w.channels, (w.channel ch).temporary = true → (w.channel ch).subs = []
  links : ∀ ch ∈ w.channels, ∀ link ∈ (w.channel ch).channel_links,
    link ∈ w.channels ∧ (w.channel link).temporary = false

/-- The same tree of channels. -/
structure SameTree (w w' : Server) : Prop where
  channels : w'.channels = w.channels
  nextChannel : w'.nextChannel = w.nextChannel
  defaultChan : w'.defaultChan = w.defaultChan
  id : ∀ ch, (w'.channel ch).id = (w.channel ch).id
  temporary : ∀ ch, (w'.channel ch).temporary = (w.channel ch).temporary
  parent : ∀ ch, (w'.channel ch).parent = (w.channel ch).parent
  subs : ∀ ch, (w'.channel ch).subs = (w.channel ch).subs
  links : ∀ ch, (w'.channel ch).channel_links = (w.channel ch).channel_links

theorem SameTree.tree (h : SameTree w w') (htree : Tree w) : Tree w' := by
  obtain ⟨old, ids, root, default, parents, subs, nodup, leaf, links⟩ := htree
  constructor
  all_goals simp only [h.channels, h.nextChannel, h.defaultChan, h.id, h.temporary, h.parent, h.subs, h.links]
  all_goals assumption

theorem modifyClient_self (w : Server) (c : ClientPtr) (f : Client → Client) :
    (w.modifyClient c f).client c = f (w.client c) := Function.update_self _ _ _

theorem modifyClient_of_ne {c' : ClientPtr} (w : Server) (f : Client → Client) (h : c' ≠ c) :
    (w.modifyClient c f).client c' = w.client c' := Function.update_of_ne h _ _

/-- A field that a change leaves alone. -/
theorem modifyClient_eq {α : Type} (field : Client → α) (w : Server) (c : ClientPtr) {f : Client → Client}
    (h : field (f (w.client c)) = field (w.client c)) (c' : ClientPtr) :
    field ((w.modifyClient c f).client c') = field (w.client c') := by
  by_cases hc : c' = c
  · rw [hc, modifyClient_self, h]
  · rw [modifyClient_of_ne w f hc]

theorem modifyChannel_self (w : Server) (ch : ChannelPtr) (f : Channel → Channel) :
    (w.modifyChannel ch f).channel ch = f (w.channel ch) := Function.update_self _ _ _

theorem modifyChannel_of_ne {ch' : ChannelPtr} (w : Server) (f : Channel → Channel) (h : ch' ≠ ch) :
    (w.modifyChannel ch f).channel ch' = w.channel ch' := Function.update_of_ne h _ _

theorem modifyChannel_eq {α : Type} (field : Channel → α) (w : Server) (ch : ChannelPtr) {f : Channel → Channel}
    (h : field (f (w.channel ch)) = field (w.channel ch)) (ch' : ChannelPtr) :
    field ((w.modifyChannel ch f).channel ch') = field (w.channel ch') := by
  by_cases hch : ch' = ch
  · rw [hch, modifyChannel_self, h]
  · rw [modifyChannel_of_ne w f hch]

theorem Tree.channelsNodup (h : Tree w) : w.channels.Nodup := h.ids.of_map _

/-- Who is in a channel is not part of the tree. -/
theorem sameTree_members (w : Server) (ch : ChannelPtr) (f : List ClientPtr → List ClientPtr) :
    SameTree w (w.modifyChannel ch fun channel => { channel with clients := f channel.clients }) :=
  ⟨rfl, rfl, rfl, modifyChannel_eq Channel.id w ch rfl, modifyChannel_eq Channel.temporary w ch rfl,
    modifyChannel_eq Channel.parent w ch rfl, modifyChannel_eq Channel.subs w ch rfl,
    modifyChannel_eq Channel.channel_links w ch rfl⟩

/-- The fields of the channels when one is freed. Its parent forgets it. -/
structure Freed (w w' : Server) (l : ChannelPtr) : Prop where
  channels : w'.channels = w.channels.erase l
  nextChannel : w'.nextChannel = w.nextChannel
  defaultChan : w'.defaultChan = w.defaultChan
  id : ∀ ch, (w'.channel ch).id = (w.channel ch).id
  temporary : ∀ ch, (w'.channel ch).temporary = (w.channel ch).temporary
  parent : ∀ ch, (w'.channel ch).parent = (w.channel ch).parent
  links : ∀ ch, (w'.channel ch).channel_links = (w.channel ch).channel_links
  clients : ∀ ch, (w'.channel ch).clients = (w.channel ch).clients
  subs : ∀ ch, (w'.channel ch).subs = if (w.channel l).parent = some ch then (w.channel ch).subs.erase l
    else (w.channel ch).subs

theorem channel_freeChannel (w : Server) (l ch : ChannelPtr) : (w.freeChannel l).channel ch =
    if (w.channel l).parent = some ch then { w.channel ch with subs := (w.channel ch).subs.erase l }
      else w.channel ch := by
  unfold freeChannel
  cases hparent : (w.channel l).parent with
  | none => rfl
  | some p =>
    by_cases hch : ch = p
    · rw [hch, if_pos rfl]
      exact modifyChannel_self w p fun channel => { channel with subs := channel.subs.erase l }
    · rw [if_neg fun heq => hch (Option.some.inj heq).symm]
      exact modifyChannel_of_ne w (fun channel => { channel with subs := channel.subs.erase l }) hch

theorem client_freeChannel (w : Server) (l : ChannelPtr) : (w.freeChannel l).client = w.client ∧
    (w.freeChannel l).clients = w.clients ∧ (w.freeChannel l).nextClient = w.nextClient := by
  unfold freeChannel
  split <;> exact ⟨rfl, rfl, rfl⟩

theorem freed_freeChannel (w : Server) (l : ChannelPtr) : Freed w (w.freeChannel l) l := by
  have hlists : (w.freeChannel l).channels = w.channels.erase l ∧ (w.freeChannel l).nextChannel = w.nextChannel ∧
      (w.freeChannel l).defaultChan = w.defaultChan := by
    unfold freeChannel
    split <;> exact ⟨rfl, rfl, rfl⟩
  refine ⟨hlists.1, hlists.2.1, hlists.2.2, ?_, ?_, ?_, ?_, ?_, ?_⟩
  all_goals
    intro ch
    rw [channel_freeChannel]
    split <;> rfl

theorem Tree.free {l : ChannelPtr} (h : Tree w) (hl : l ∈ w.channels) (htemporary : (w.channel l).temporary = true)
    (hfreed : Freed w w' l) : Tree w' := by
  have hroot : l ≠ 0 := by
    rintro rfl
    rw [h.root.2.1] at htemporary
    cases htemporary
  have hkept : ∀ {ch}, ch ∈ w.channels → (w.channel ch).temporary = false → ch ∈ w.channels.erase l := by
    intro ch hch hfalse
    refine (List.mem_erase_of_ne ?_).mpr hch
    rintro rfl
    rw [htemporary] at hfalse
    cases hfalse
  have hmem : ∀ {ch}, ch ∈ w.channels.erase l → ch ∈ w.channels ∧ ch ≠ l := by
    intro ch hch
    exact ⟨List.mem_of_mem_erase hch, (h.channelsNodup.mem_erase_iff.mp hch).1⟩
  obtain ⟨p, hp, _, hparent, hpermanent, _⟩ := h.parents l hl hroot
  constructor
  all_goals simp only [hfreed.channels, hfreed.nextChannel, hfreed.defaultChan, hfreed.id, hfreed.temporary,
    hfreed.parent, hfreed.links, hfreed.subs, hparent]
  · exact fun ch hch => h.old ch (hmem hch).1
  · exact h.ids.sublist (List.erase_sublist.map _)
  · exact ⟨hkept h.root.1 h.root.2.1, h.root.2⟩
  · exact ⟨hkept h.default.1 h.default.2, h.default.2⟩
  · intro ch hch hne
    obtain ⟨q, hq, holder, hqparent, hqfalse, hsub⟩ := h.parents ch (hmem hch).1 hne
    refine ⟨q, hkept hq hqfalse, holder, hqparent, hqfalse, ?_⟩
    split
    · exact (List.mem_erase_of_ne (hmem hch).2).mpr hsub
    · exact hsub
  · intro q hq ch hch
    have hsub : ch ∈ (w.channel q).subs := by
      split at hch
      · exact List.mem_of_mem_erase hch
      · exact hch
    obtain ⟨hin, hchparent⟩ := h.subs q (hmem hq).1 ch hsub
    refine ⟨(List.mem_erase_of_ne ?_).mpr hin, hchparent⟩
    rintro rfl
    rw [hparent] at hchparent
    rw [if_pos hchparent] at hch
    exact ((h.nodup q (hmem hq).1).mem_erase_iff.mp hch).1 rfl
  · intro q hq
    split
    · exact (h.nodup q (hmem hq).1).erase _
    · exact h.nodup q (hmem hq).1
  · intro ch hch htrue
    split
    · rw [h.leaf ch (hmem hch).1 htrue]
      rfl
    · exact h.leaf ch (hmem hch).1 htrue
  · intro ch hch link hlink
    obtain ⟨hin, hfalse⟩ := h.links ch (hmem hch).1 link hlink
    exact ⟨hkept hin hfalse, hfalse⟩

/-- Only the members of the channel that a client leaves can change, and it goes when it is temporary and empty. -/
theorem userLeave_cases {l : ChannelPtr} (hchannel : (w.client c).channel = some l) : ∃ w₁,
    w₁ = w.modifyChannel l (fun channel => { channel with clients := channel.clients.erase c }) ∧
      (w.userLeave c = w₁ ∧ ¬ ((w.channel l).temporary = true ∧ (w.channel l).clients.erase c = []) ∨
        w.userLeave c = w₁.freeChannel l ∧ (w.channel l).temporary = true ∧ (w.channel l).clients.erase c = []) := by
  refine ⟨_, rfl, ?_⟩
  unfold userLeave
  rw [hchannel]
  dsimp only
  rw [modifyChannel_self]
  split
  next hgone => exact .inr ⟨rfl, hgone⟩
  next hstays => exact .inl ⟨rfl, hstays⟩

theorem client_userLeave (w : Server) (c : ClientPtr) : (w.userLeave c).client = w.client ∧
    (w.userLeave c).clients = w.clients ∧ (w.userLeave c).nextClient = w.nextClient := by
  cases hchannel : (w.client c).channel with
  | none =>
    rw [userLeave, hchannel]
    exact ⟨rfl, rfl, rfl⟩
  | some l =>
    obtain ⟨w₁, rfl, ⟨heq, _⟩ | ⟨heq, _⟩⟩ := userLeave_cases hchannel
    · rw [heq]
      exact ⟨rfl, rfl, rfl⟩
    · rw [heq]
      exact client_freeChannel _ l

theorem clients_userLeave {l : ChannelPtr} (hchannel : (w.client c).channel = some l) (ch : ChannelPtr) :
    ((w.userLeave c).channel ch).clients =
      if ch = l then (w.channel l).clients.erase c else (w.channel ch).clients := by
  have hfields : ∀ ch, ((w.modifyChannel l fun channel => { channel with clients := channel.clients.erase c }).channel
      ch).clients = if ch = l then (w.channel l).clients.erase c else (w.channel ch).clients := by
    intro ch
    by_cases hch : ch = l
    · rw [hch, if_pos rfl, modifyChannel_self]
    · rw [if_neg hch, modifyChannel_of_ne _ _ hch]
  obtain ⟨w₁, rfl, ⟨heq, _⟩ | ⟨heq, _⟩⟩ := userLeave_cases hchannel
  · rw [heq, hfields]
  · rw [heq, (freed_freeChannel _ l).clients, hfields]

/-- What is left of the channels when a client leaves its own: all but that one, which goes when it is temporary and
empty. -/
theorem Tree.leave (h : Tree w) {l : ChannelPtr} (hl : l ∈ w.channels) (hchannel : (w.client c).channel = some l) :
    Tree (w.userLeave c) ∧ (∀ ch, ((w.userLeave c).channel ch).temporary = (w.channel ch).temporary) ∧
      ((w.userLeave c).channels = w.channels ∧ ((w.channel l).temporary = true → (w.channel l).clients.erase c ≠ []) ∨
        (w.userLeave c).channels = w.channels.erase l ∧ (w.channel l).clients.erase c = []) := by
  obtain ⟨w₁, rfl, ⟨heq, hstays⟩ | ⟨heq, htemporary, hempty⟩⟩ := userLeave_cases hchannel
  · have hsame := sameTree_members w l (·.erase c)
    rw [heq]
    exact ⟨hsame.tree h, hsame.temporary, .inl ⟨rfl, fun htrue hempty => hstays ⟨htrue, hempty⟩⟩⟩
  · have hsame := sameTree_members w l (·.erase c)
    have hfreed := freed_freeChannel
      (w.modifyChannel l fun channel => { channel with clients := channel.clients.erase c }) l
    rw [heq]
    refine ⟨(hsame.tree h).free hl ((hsame.temporary l).trans htemporary) hfreed,
      fun ch => (hfreed.temporary ch).trans (hsame.temporary ch), .inr ⟨hfreed.channels, hempty⟩⟩

/-- A channel that was created and is not in the tree yet. -/
structure Created (w w₁ : Server) : Prop where
  channels : w₁.channels = w.channels
  nextChannel : w₁.nextChannel = w.nextChannel + 1
  client : w₁.client = w.client
  clients : w₁.clients = w.clients
  nextClient : w₁.nextClient = w.nextClient
  channel : ∀ ch, ch ≠ w.nextChannel → w₁.channel ch = w.channel ch
  id : (w₁.channel w.nextChannel).id = w.findFreeId
  subs : (w₁.channel w.nextChannel).subs = []
  links : (w₁.channel w.nextChannel).channel_links = []
  empty : (w₁.channel w.nextChannel).clients = []

theorem createChannel_self (w : Server) (name : Name) :
    (w.createChannel name).2.channel w.nextChannel = { id := w.findFreeId, name } := Function.update_self _ _ _

theorem created_createChannel (w : Server) (name : Name) : Created w (w.createChannel name).2 := by
  refine ⟨rfl, rfl, rfl, rfl, rfl, fun ch hch => Function.update_of_ne hch _ _, ?_, ?_, ?_, ?_⟩
  all_goals rw [createChannel_self]

/-- What is said of the new channel before it is added. -/
theorem Created.modify (h : Created w w₁) {f : Channel → Channel} (hid : ∀ channel, (f channel).id = channel.id)
    (hsubs : ∀ channel, (f channel).subs = channel.subs)
    (hlinks : ∀ channel, (f channel).channel_links = channel.channel_links)
    (hclients : ∀ channel, (f channel).clients = channel.clients) : Created w (w₁.modifyChannel w.nextChannel f) where
  channels := h.channels
  nextChannel := h.nextChannel
  client := h.client
  clients := h.clients
  nextClient := h.nextClient
  channel ch hch := (modifyChannel_of_ne w₁ f hch).trans (h.channel ch hch)
  id := (modifyChannel_eq Channel.id w₁ _ (hid _) _).trans h.id
  subs := (modifyChannel_eq Channel.subs w₁ _ (hsubs _) _).trans h.subs
  links := (modifyChannel_eq Channel.channel_links w₁ _ (hlinks _) _).trans h.links
  empty := (modifyChannel_eq Channel.clients w₁ _ (hclients _) _).trans h.empty

theorem channel_addChannel (w : Server) (hne : parent ≠ ch) (ch' : ChannelPtr) : (w.addChannel parent ch).channel ch' =
    if ch' = ch then { w.channel ch with parent := some parent }
    else if ch' = parent then { w.channel parent with subs := (w.channel parent).subs ++ [ch] }
    else w.channel ch' := by
  have hafter : (w.addChannel parent ch).channel =
      ((w.modifyChannel parent fun channel => { channel with subs := channel.subs ++ [ch] }).modifyChannel ch
        fun channel => { channel with parent := some parent }).channel := rfl
  rw [hafter]
  split
  next heq => rw [heq, modifyChannel_self, modifyChannel_of_ne _ _ (Ne.symm hne)]
  next hch =>
    rw [modifyChannel_of_ne _ _ hch]
    split
    next heq => rw [heq, modifyChannel_self]
    next hother => rw [modifyChannel_of_ne _ _ hother]

theorem id_addChannel (w : Server) (hne : parent ≠ ch) (ch' : ChannelPtr) :
    ((w.addChannel parent ch).channel ch').id = (w.channel ch').id := by
  rw [channel_addChannel w hne]
  split
  next heq => rw [heq]
  next =>
    split
    next heq => rw [heq]
    next => rfl

theorem Tree.fresh (h : Tree w) : w.nextChannel ∉ w.channels := fun hin => absurd (h.old _ hin) (Nat.lt_irrefl _)

/-- The numbers stay unique, as the new channel takes a free one. -/
theorem Created.ids (h : Created w w₁) (htree : Tree w) (hparent : parent ∈ w.channels) :
    ((w₁.addChannel parent w.nextChannel).channels.map fun ch =>
      ((w₁.addChannel parent w.nextChannel).channel ch).id).Nodup := by
  have hne : parent ≠ w.nextChannel := fun heq => htree.fresh (heq ▸ hparent)
  have hid := id_addChannel w₁ hne
  have hold : w.channels.map (fun ch => (w₁.channel ch).id) = w.channels.map fun ch => (w.channel ch).id := by
    refine List.map_congr_left fun ch hch => ?_
    rw [h.channel ch fun heq => htree.fresh (heq ▸ hch)]
  have hlists : (w₁.addChannel parent w.nextChannel).channels = w.channels ++ [w.nextChannel] :=
    congrArg (· ++ [w.nextChannel]) h.channels
  simp only [hlists, hid]
  rw [List.map_append, hold, List.map_cons, List.map_nil, h.id]
  refine List.nodup_append.mpr ⟨htree.ids, List.nodup_singleton _, ?_⟩
  rintro id hid' _ hmem rfl
  rw [List.mem_singleton.mp hmem] at hid'
  exact findFree_notMem 0 _ hid'

/-- The fields of the channels when one is added below another. -/
theorem Created.fields (h : Created w w₁) (htree : Tree w) (hparent : parent ∈ w.channels) :
    (∀ ch ∈ w.channels, ((w₁.addChannel parent w.nextChannel).channel ch).parent = (w.channel ch).parent ∧
      ((w₁.addChannel parent w.nextChannel).channel ch).temporary = (w.channel ch).temporary ∧
      ((w₁.addChannel parent w.nextChannel).channel ch).channel_links = (w.channel ch).channel_links ∧
      ((w₁.addChannel parent w.nextChannel).channel ch).clients = (w.channel ch).clients ∧
      ((w₁.addChannel parent w.nextChannel).channel ch).subs =
        if ch = parent then (w.channel ch).subs ++ [w.nextChannel] else (w.channel ch).subs) ∧
    (w₁.addChannel parent w.nextChannel).channel w.nextChannel =
      { w₁.channel w.nextChannel with parent := some parent } := by
  have hne : parent ≠ w.nextChannel := fun heq => htree.fresh (heq ▸ hparent)
  refine ⟨?_, ?_⟩
  · intro ch hch
    have hold : ch ≠ w.nextChannel := fun heq => htree.fresh (heq ▸ hch)
    rw [channel_addChannel w₁ hne, if_neg hold, h.channel ch hold, h.channel parent hne]
    split
    next heq =>
      rw [heq]
      exact ⟨rfl, rfl, rfl, rfl, rfl⟩
    next => exact ⟨rfl, rfl, rfl, rfl, rfl⟩
  · rw [channel_addChannel w₁ hne, if_pos rfl]

theorem Tree.add (htree : Tree w) (h : Created w w₁) (hparent : parent ∈ w.channels)
    (hpermanent : (w.channel parent).temporary = false)
    (hdefault : w₁.defaultChan = w.defaultChan ∨
      w₁.defaultChan = w.nextChannel ∧ (w₁.channel w.nextChannel).temporary = false) :
    Tree (w₁.addChannel parent w.nextChannel) := by
  obtain ⟨hfields, hnew⟩ := h.fields htree hparent
  have hlists : (w₁.addChannel parent w.nextChannel).channels = w.channels ++ [w.nextChannel] :=
    congrArg (· ++ [w.nextChannel]) h.channels
  have hnext : (w₁.addChannel parent w.nextChannel).nextChannel = w.nextChannel + 1 := h.nextChannel
  have hdefaultChan : (w₁.addChannel parent w.nextChannel).defaultChan = w₁.defaultChan := rfl
  have hids := h.ids htree hparent
  have hne : parent ≠ w.nextChannel := fun heq => htree.fresh (heq ▸ hparent)
  have hzero : ((w₁.addChannel parent w.nextChannel).channel 0).id = (w.channel 0).id := by
    rw [id_addChannel w₁ hne, h.channel 0 (htree.old 0 htree.root.1).ne]
  generalize w₁.addChannel parent w.nextChannel = w₂ at hfields hnew hlists hnext hdefaultChan hids hzero ⊢
  have hcases : ∀ {ch}, ch ∈ w₂.channels → ch ∈ w.channels ∨ ch = w.nextChannel := by
    intro ch hch
    rw [hlists] at hch
    exact (List.mem_append.mp hch).imp id List.mem_singleton.mp
  have hkept : ∀ {ch}, ch ∈ w.channels → ch ∈ w₂.channels := by
    intro ch hch
    rw [hlists]
    exact List.mem_append_left _ hch
  have hadded : w.nextChannel ∈ w₂.channels := by
    rw [hlists]
    exact List.mem_append_right _ List.mem_cons_self
  refine ⟨?_, hids, ?_, ?_, ?_, ?_, ?_, ?_, ?_⟩
  · intro ch hch
    rw [hnext]
    obtain hold | rfl := hcases hch
    · exact Nat.lt_succ_of_lt (htree.old ch hold)
    · exact Nat.lt_succ_self _
  · obtain ⟨hparent0, htemporary0, _⟩ := hfields 0 htree.root.1
    exact ⟨hkept htree.root.1, htemporary0.trans htree.root.2.1, hparent0.trans htree.root.2.2.1,
      hzero.trans htree.root.2.2.2⟩
  · rw [hdefaultChan]
    obtain heq | ⟨heq, hfalse⟩ := hdefault
    · rw [heq]
      exact ⟨hkept htree.default.1, (hfields _ htree.default.1).2.1.trans htree.default.2⟩
    · rw [heq, hnew]
      exact ⟨hadded, hfalse⟩
  · intro ch hch hne
    obtain hold | rfl := hcases hch
    · obtain ⟨q, hq, holder, hqparent, hqfalse, hsub⟩ := htree.parents ch hold hne
      obtain ⟨_, hqtemporary, _, _, hqsubs⟩ := hfields q hq
      refine ⟨q, hkept hq, holder, (hfields ch hold).1.trans hqparent, hqtemporary.trans hqfalse, ?_⟩
      rw [hqsubs]
      split
      · exact List.mem_append_left _ hsub
      · exact hsub
    · obtain ⟨_, hptemporary, _, _, hpsubs⟩ := hfields parent hparent
      refine ⟨parent, hkept hparent, htree.old parent hparent, ?_, hptemporary.trans hpermanent, ?_⟩
      · rw [hnew]
      · rw [hpsubs, if_pos rfl]
        exact List.mem_append_right _ List.mem_cons_self
  · intro q hq ch hch
    obtain hold | rfl := hcases hq
    · rw [(hfields q hold).2.2.2.2] at hch
      have hsub : ch ∈ (w.channel q).subs ∨ q = parent ∧ ch = w.nextChannel := by
        split at hch
        next heq => exact (List.mem_append.mp hch).imp id fun hmem => ⟨heq, List.mem_singleton.mp hmem⟩
        next => exact .inl hch
      obtain hsub | ⟨rfl, rfl⟩ := hsub
      · obtain ⟨hin, hat⟩ := htree.subs q hold ch hsub
        exact ⟨hkept hin, (hfields ch hin).1.trans hat⟩
      · refine ⟨hadded, ?_⟩
        rw [hnew]
    · rw [hnew] at hch
      exact absurd (h.subs ▸ hch) List.not_mem_nil
  · intro q hq
    obtain hold | rfl := hcases hq
    · rw [(hfields q hold).2.2.2.2]
      split
      · refine List.nodup_append.mpr ⟨htree.nodup q hold, List.nodup_singleton _, ?_⟩
        rintro ch hch _ hmem rfl
        rw [List.mem_singleton.mp hmem] at hch
        exact htree.fresh (htree.subs q hold _ hch).1
      · exact htree.nodup q hold
    · rw [hnew]
      exact h.subs ▸ List.nodup_nil
  · intro ch hch htrue
    obtain hold | rfl := hcases hch
    · obtain ⟨_, htemporary, _, _, hsubs⟩ := hfields ch hold
      rw [htemporary] at htrue
      rw [hsubs]
      split
      next heq =>
        rw [heq, hpermanent] at htrue
        cases htrue
      next => exact htree.leaf ch hold htrue
    · rw [hnew]
      exact h.subs
  · intro ch hch link hlink
    obtain hold | rfl := hcases hch
    · rw [(hfields ch hold).2.2.1] at hlink
      obtain ⟨hin, hfalse⟩ := htree.links ch hold link hlink
      exact ⟨hkept hin, (hfields link hin).2.1.trans hfalse⟩
    · rw [hnew] at hlink
      exact absurd (h.links ▸ hlink) List.not_mem_nil

/-- A server that nobody has connected to, with the channels of its configuration. -/
structure Fresh (w : Server) : Prop where
  tree : Tree w
  clients : w.clients = []
  channels : ∀ ch ∈ w.channels, (w.channel ch).temporary = false ∧ (w.channel ch).clients = []

theorem fresh_root (chdesc : ConfChannel) : Fresh (root chdesc) := by
  have hmem : ∀ {ch}, ch ∈ (root chdesc).channels → ch = 0 := List.mem_singleton.mp
  have hin : 0 ∈ (root chdesc).channels := List.mem_singleton_self 0
  refine ⟨⟨?_, List.nodup_singleton _, ⟨hin, rfl, rfl, rfl⟩, ⟨hin, rfl⟩, ?_, ?_, fun _ _ => List.nodup_nil, ?_, ?_⟩,
    rfl, ?_⟩
  · intro ch hch
    rw [hmem hch]
    exact Nat.zero_lt_one
  · exact fun ch hch hne => absurd (hmem hch) hne
  · exact fun parent _ ch hch => absurd hch List.not_mem_nil
  · exact fun _ _ _ => rfl
  · exact fun ch _ link hlink => absurd hlink List.not_mem_nil
  · exact fun _ _ => ⟨rfl, rfl⟩

theorem mem_of_byName {name : Name} (h : w.byName name = some ch) : ch ∈ w.channels := List.mem_of_find?_eq_some h

theorem mem_of_fromId {channelid : Nat} (h : w.fromId channelid = some ch) : ch ∈ w.channels ∧
    (w.channel ch).id = channelid :=
  ⟨List.mem_of_find?_eq_some h, by simpa using List.find?_some h⟩

/-- The default channel may be the one that was just created. -/
theorem Created.setDefault (h : Created w w₁) : Created w { w₁ with defaultChan := w.nextChannel } :=
  ⟨h.channels, h.nextChannel, h.client, h.clients, h.nextClient, h.channel, h.id, h.subs, h.links, h.empty⟩

theorem Fresh.add (hfresh : Fresh w) (h : Created w w₁) (hparent : parent ∈ w.channels)
    (hpermanent : (w₁.channel w.nextChannel).temporary = false)
    (hdefault : w₁.defaultChan = w.defaultChan ∨ w₁.defaultChan = w.nextChannel) :
    Fresh (w₁.addChannel parent w.nextChannel) := by
  obtain ⟨hfields, hnew⟩ := h.fields hfresh.tree hparent
  have hlists : (w₁.addChannel parent w.nextChannel).channels = w.channels ++ [w.nextChannel] :=
    congrArg (· ++ [w.nextChannel]) h.channels
  refine ⟨hfresh.tree.add h hparent (hfresh.channels parent hparent).1 (hdefault.imp id fun heq => ⟨heq, hpermanent⟩),
    h.clients.trans hfresh.clients, ?_⟩
  intro ch hch
  rw [hlists] at hch
  obtain hold | hmade := List.mem_append.mp hch
  · obtain ⟨_, htemporary, _, hclients, _⟩ := hfields ch hold
    rw [htemporary, hclients]
    exact hfresh.channels ch hold
  · rw [List.mem_singleton.mp hmade, hnew]
    exact ⟨hpermanent, h.empty⟩

theorem Fresh.addConfChannel {defaultChannelName : Name} {chdesc : ConfChannel} (hfresh : Fresh w)
    (h : w.addConfChannel defaultChannelName chdesc = some w') : Fresh w' := by
  have hcreated := (created_createChannel w chdesc.name).modify
    (f := fun channel => { channel with
      noenter := chdesc.noenter, silent := chdesc.silent, password := chdesc.password })
    (fun _ => rfl) (fun _ => rfl) (fun _ => rfl) (fun _ => rfl)
  have hpermanent : (((w.createChannel chdesc.name).2.modifyChannel w.nextChannel fun channel =>
      { channel with noenter := chdesc.noenter, silent := chdesc.silent, password := chdesc.password }).channel
      w.nextChannel).temporary = false := by
    rw [modifyChannel_self, createChannel_self]
  unfold Server.addConfChannel createChannel at h
  dsimp only at h
  split at h
  · obtain ⟨parent, hparent, rfl⟩ := Option.map_eq_some_iff.mp h
    have hin := mem_of_byName hparent
    exact hfresh.add hcreated.setDefault hin hpermanent (.inr rfl)
  · obtain ⟨parent, hparent, rfl⟩ := Option.map_eq_some_iff.mp h
    have hin := mem_of_byName hparent
    exact hfresh.add hcreated hin hpermanent (.inl rfl)

theorem Fresh.addLink {link : Name × Name} (hfresh : Fresh w) (h : w.addLink link = some w') : Fresh w' := by
  obtain ⟨ch_src, _, h⟩ := Option.bind_eq_some_iff.mp h
  obtain ⟨ch_dst, hdst, rfl⟩ := Option.map_eq_some_iff.mp h
  have hkeeps : ∀ {α : Type} (field : Channel → α),
      (∀ channel links, field { channel with channel_links := links } = field channel) → ∀ ch,
        field ((w.modifyChannel ch_src fun channel =>
        { channel with channel_links := channel.channel_links ++ [ch_dst] }).channel ch) = field (w.channel ch) :=
    fun field hfield => modifyChannel_eq field w ch_src (hfield _ _)
  obtain ⟨old, ids, root, default, parents, subs, nodup, leaf, links⟩ := hfresh.tree
  refine ⟨?_, hfresh.clients, fun ch hch => ?_⟩
  · constructor
    case links =>
      intro ch hch link hlink
      have hold : link ∈ (w.channel ch).channel_links ∨ link = ch_dst := by
        by_cases heq : ch = ch_src
        · rw [heq, modifyChannel_self] at hlink
          rw [heq]
          exact (List.mem_append.mp hlink).imp id List.mem_singleton.mp
        · rw [modifyChannel_of_ne _ _ heq] at hlink
          exact .inl hlink
      rw [hkeeps Channel.temporary fun _ _ => rfl]
      obtain hlink | rfl := hold
      · exact links ch hch link hlink
      · have hin := mem_of_byName hdst
        exact ⟨hin, (hfresh.channels link hin).1⟩
    all_goals try simp only [hkeeps Channel.temporary fun _ _ => rfl, hkeeps Channel.id fun _ _ => rfl,
      hkeeps Channel.parent fun _ _ => rfl, hkeeps Channel.subs fun _ _ => rfl]
    all_goals assumption
  · rw [hkeeps Channel.temporary fun _ _ => rfl, hkeeps Channel.clients fun _ _ => rfl]
    exact hfresh.channels ch hch

/-- The channels of the configuration are a tree, and nobody is in them. -/
theorem fresh_chanInit {channels : List ConfChannel} {defaultChannelName : Name} {links : List (Name × Name)}
    (h : chanInit channels defaultChannelName links = some w) : Fresh w := by
  cases channels with
  | nil => cases h
  | cons chdesc rest =>
    obtain ⟨w₁, hchannels, h⟩ := Option.bind_eq_some_iff.mp h
    have hfresh := Loop.foldlM_invariant Fresh (fun _ hfresh hadd => hfresh.addConfChannel hadd)
      (fresh_root chdesc) hchannels
    split at h
    next => cases h
    next => exact Loop.foldlM_invariant Fresh (fun _ hfresh hlink => hfresh.addLink hlink) hfresh h

end Server

end mumble
