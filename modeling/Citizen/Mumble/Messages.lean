import Citizen.Lib.Transition
import Citizen.Mumble.Voice

open Bits

namespace mumble

/-- A channel of the configuration. -/
structure ConfChannel where
  name : Name
  parent : Name
  password : Option Name
  noenter : Bool
  silent : Bool

namespace Server

/-- A server that has its root channel alone. -/
def root (chdesc : ConfChannel) : Server where
  clients := []
  client := fun _ => { sessionId := 0, availableBandwidth := 0 }
  nextClient := 0
  channels := [0]
  channel := fun _ => { id := 0, name := chdesc.name, noenter := chdesc.noenter, silent := chdesc.silent }
  nextChannel := 1
  defaultChan := 0
  m_listeningUsers := fun _ => ∅
  m_listenedChannels := fun _ => ∅

variable (w : Server)

/-- The first channel with a name. -/
def byName (name : Name) : Option ChannelPtr := w.channels.find? fun ch => (w.channel ch).name = name

/-- A channel of the configuration below the root. Without its parent it is fatal. -/
def addConfChannel (defaultChannelName : Name) (chdesc : ConfChannel) : Option Server :=
  let (ch, w) := w.createChannel chdesc.name
  let w := w.modifyChannel ch fun channel =>
    { channel with noenter := chdesc.noenter, silent := chdesc.silent, password := chdesc.password }
  let w := if chdesc.name = defaultChannelName then { w with defaultChan := ch } else w
  (w.byName chdesc.parent).map fun parent => w.addChannel parent ch

/-- A link between two channels of the configuration. -/
def addLink (link : Name × Name) : Option Server :=
  (w.byName link.1).bind fun ch_src => (w.byName link.2).map fun ch_dst =>
    w.modifyChannel ch_src fun channel => { channel with channel_links := channel.channel_links ++ [ch_dst] }

/-- `Chan_init`. -/
def chanInit (channels : List ConfChannel) (defaultChannelName : Name) (links : List (Name × Name)) : Option Server :=
  match channels with
  | [] => none
  | chdesc :: rest =>
    (rest.foldlM (fun (w : Server) chdesc => w.addConfChannel defaultChannelName chdesc) (root chdesc)).bind fun w =>
      if (w.channel w.defaultChan).noenter = true ∨ (w.channel w.defaultChan).password.isSome then none
      else links.foldlM addLink w

end Server

/-- What the server is told. `voice` is a packet that was decrypted or came through the tunnel. -/
inductive Action
  | connect
  | disconnect (c : ClientPtr)
  | authenticate (c : ClientPtr) (banned : Bool) (msg : Authenticate)
  | userState (c : ClientPtr) (msg : UserState)
  | channelState (c : ClientPtr) (msg : ChannelState)
  | voiceTarget (c : ClientPtr) (targetId : Nat) (targets : List VoiceTarget.Target)
  | userRemove (c : ClientPtr) (session : Nat)
  | voice (c : ClientPtr) (data : List Byte)
  | janitor
  | setPlayerMuted (convertedServerId : Name) (muted : Bool)
  | createGameChannel (channelName : Name)

namespace Action

/-- The client that an action comes from. -/
def source : Action → Option ClientPtr
  | .disconnect c | .authenticate c _ _ | .userState c _ | .channelState c _ | .voiceTarget c _ _ | .userRemove c _
  | .voice c _ => some c
  | .connect | .janitor | .setPlayerMuted _ _ | .createGameChannel _ => none

end Action

namespace Server

/-- What an action does. A client that has not authenticated may do no more than that. -/
def step (conf : Conf) (w : Server) : Action → Option Server
  | .connect => some (w.clientAdd conf)
  | .disconnect c => if c ∈ w.clients then some (w.clientFree c) else none
  | .authenticate c banned msg => if c ∈ w.clients then some (w.authenticate conf banned c msg) else none
  | .userState c msg =>
    if c ∈ w.clients then some (if (w.client c).authenticated then w.userState c msg else w) else none
  | .channelState c msg =>
    if c ∈ w.clients then some (if (w.client c).authenticated then w.channelState c msg else w) else none
  | .voiceTarget c targetId targets =>
    if c ∈ w.clients then some (if (w.client c).authenticated then w.voiceTarget c targetId targets else w) else none
  | .userRemove c session =>
    if c ∈ w.clients then some (if (w.client c).authenticated then w.userRemove c session else w) else none
  | .voice c data => if c ∈ w.clients ∧ data ≠ [] then (w.voiceMsg c data).map Prod.fst else none
  | .janitor => some (w.janitor conf)
  | .setPlayerMuted convertedServerId muted => some (w.setPlayerMuted convertedServerId muted)
  | .createGameChannel channelName => some (w.createGameChannel channelName)

end Server

end mumble
