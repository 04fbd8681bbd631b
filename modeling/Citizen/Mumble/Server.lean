import Citizen.Lib.Bits
import Mathlib.Data.Finset.Basic
import Mathlib.Logic.Function.Basic

open Bits

namespace mumble

/-- A C string, without the zero at its end. -/
abbrev Name := List Byte

/-- What `c_str` is for functions that read up to a zero. -/
def cstr (s : List Byte) : Name := s.takeWhile (· ≠ 0)

def strstr (s t : Name) : Bool := s.tails.any t.isPrefixOf

/-- `strncmp(s, t, n) == 0`. -/
def strnEq (s t : Name) (n : Nat) : Bool := s.take n == t.take n

def tolower (c : Byte) : Byte := if 65 ≤ c.toNat ∧ c.toNat ≤ 90 then c + 32 else c

/-- `strnicmp(s, t, n) == 0`. -/
def strniEq (s t : Name) (n : Nat) : Bool := strnEq (s.map tolower) (t.map tolower) n

abbrev ClientPtr := Nat

abbrev ChannelPtr := Nat

def MAX_TEXT : Nat := 512

def MAX_USERNAME : Nat := 128

def MAX_TOKENSIZE : Nat := 64

def MAX_TOKENS : Nat := 32

def TARGET_MAX_CHANNELS : Nat := 256

def TARGET_MAX_SESSIONS : Nat := 256

structure ChannelTarget where
  channel : Nat
  linked : Bool
  children : Bool
deriving DecidableEq

/-- The entries in front of the first -1 of each table. -/
structure VoiceTarget where
  id : Nat
  channels : List ChannelTarget
  sessions : List Nat
deriving DecidableEq

structure Client where
  sessionId : Nat
  username : Option Name := none
  authenticated : Bool := false
  deaf : Bool := false
  mute : Bool := false
  self_deaf : Bool := false
  self_mute : Bool := false
  isAdmin : Bool := false
  shutdown_wait : Bool := false
  tokens : List Name := []
  availableBandwidth : Int
  channel : Option ChannelPtr := none
  context : Option (List Byte) := none
  voicetargets : List VoiceTarget := []

structure Channel where
  id : Nat
  name : Name
  password : Option Name := none
  parent : Option ChannelPtr := none
  temporary : Bool := false
  noenter : Bool := false
  silent : Bool := false
  subs : List ChannelPtr := []
  clients : List ClientPtr := []
  channel_links : List ChannelPtr := []

/-- What the server reads from its configuration. -/
structure Conf where
  passphrase : Name
  adminPassphrase : Name
  maxClients : Nat
  /-- In bytes a second. -/
  maxBandwidth : Nat

/-- Clients and channels are pointers, and a channel that is freed leaves the lists. -/
structure Server where
  clients : List ClientPtr
  client : ClientPtr → Client
  nextClient : ClientPtr
  channels : List ChannelPtr
  channel : ChannelPtr → Channel
  nextChannel : ChannelPtr
  defaultChan : ChannelPtr
  m_listeningUsers : Nat → Finset Nat
  m_listenedChannels : Nat → Finset Nat

namespace Server

variable (w : Server)

def modifyClient (c : ClientPtr) (f : Client → Client) : Server :=
  { w with client := Function.update w.client c (f (w.client c)) }

def modifyChannel (ch : ChannelPtr) (f : Channel → Channel) : Server :=
  { w with channel := Function.update w.channel ch (f (w.channel ch)) }

/-- The lowest number from `first` on that is not in use. -/
def findFree (first : Nat) (used : List Nat) : Nat :=
  ((List.range' first (used.length + 1)).find? (· ∉ used)).getD first

def findFreeId : Nat := findFree 0 (w.channels.map fun ch => (w.channel ch).id)

def fromId (channelid : Nat) : Option ChannelPtr := w.channels.find? fun ch => (w.channel ch).id = channelid

/-- `Chan_createChannel`. -/
def createChannel (name : Name) : ChannelPtr × Server :=
  (w.nextChannel, { w with
    channel := Function.update w.channel w.nextChannel { id := w.findFreeId, name }
    nextChannel := w.nextChannel + 1 })

def addChannel (parent ch : ChannelPtr) : Server :=
  let w := w.modifyChannel parent fun channel => { channel with subs := channel.subs ++ [ch] }
  let w := w.modifyChannel ch fun channel => { channel with parent := some parent }
  { w with channels := w.channels ++ [ch] }

/-- `Chan_freeChannel`: the channel is taken from the list of its parent and from the flat list. -/
def freeChannel (ch : ChannelPtr) : Server :=
  let w := match (w.channel ch).parent with
    | none => w
    | some parent => w.modifyChannel parent fun channel => { channel with subs := channel.subs.erase ch }
  { w with channels := w.channels.erase ch }

/-- A temporary channel goes with the last one in it. The client keeps its pointer. -/
def userLeave (c : ClientPtr) : Server :=
  match (w.client c).channel with
  | none => w
  | some leaving =>
    let w := w.modifyChannel leaving fun channel => { channel with clients := channel.clients.erase c }
    if (w.channel leaving).temporary = true ∧ (w.channel leaving).clients = [] then w.freeChannel leaving else w

def userJoin (ch : ChannelPtr) (c : ClientPtr) : Server :=
  if (w.client c).channel = some ch then w
  else
    let w := w.userLeave c
    let w := w.modifyChannel ch fun channel => { channel with clients := channel.clients ++ [c] }
    w.modifyClient c fun client => { client with channel := some ch }

def addListener (userSession channelID : Nat) : Server :=
  { w with
    m_listeningUsers := Function.update w.m_listeningUsers userSession
      (insert channelID (w.m_listeningUsers userSession))
    m_listenedChannels := Function.update w.m_listenedChannels channelID
      (insert userSession (w.m_listenedChannels channelID)) }

def removeListener (userSession channelID : Nat) : Server :=
  { w with
    m_listeningUsers := Function.update w.m_listeningUsers userSession
      ((w.m_listeningUsers userSession).erase channelID)
    m_listenedChannels := Function.update w.m_listenedChannels channelID
      ((w.m_listenedChannels channelID).erase userSession) }

def isListening (userSession channelID : Nat) : Bool := userSession ∈ w.m_listenedChannels channelID

def findFreeSessionId : Nat := findFree 1 (w.clients.map fun c => (w.client c).sessionId)

/-- `Client_add`. -/
def clientAdd (conf : Conf) : Server :=
  { w with
    clients := w.clients ++ [w.nextClient]
    client := Function.update w.client w.nextClient
      { sessionId := w.findFreeSessionId, availableBandwidth := conf.maxBandwidth }
    nextClient := w.nextClient + 1 }

/-- `Client_free`. Only a client that authenticated leaves its channel. -/
def clientFree (c : ClientPtr) : Server :=
  let w := if (w.client c).authenticated then w.userLeave c else w
  { w with clients := w.clients.erase c }

/-- `Client_close`: the client is disconnected after the message. -/
def clientClose (c : ClientPtr) : Server := w.modifyClient c fun client => { client with shutdown_wait := true }

/-- Bandwidth that is not used adds up to a quarter more than a second's. -/
def refill (conf : Conf) (client : Client) : Client :=
  let bwTop := conf.maxBandwidth + conf.maxBandwidth / 4
  { client with availableBandwidth := min (client.availableBandwidth + conf.maxBandwidth) bwTop }

/-- `Client_janitor`. -/
def janitor (conf : Conf) : Server :=
  { w with client := fun c => if c ∈ w.clients then refill conf (w.client c) else w.client c }

/-- `Client_token_match`. -/
def tokenMatch (client : Client) (str : Name) : Bool := client.tokens.any fun token => strniEq token str MAX_TOKENSIZE

def addTokens (client : Client) (tokens : List (List Byte)) : Client :=
  if client.tokens.length + tokens.length < MAX_TOKENS then
    if tokens.any fun token => MAX_TOKENSIZE - 1 < (cstr token).length then client
    else { client with tokens := client.tokens ++ tokens.map cstr }
  else client

end Server

structure Authenticate where
  username : List Byte
  password : List Byte
  tokens : List (List Byte)

/-- `unsupported` says that there is a user id, a suppression, a priority speaker or a texture. -/
structure UserState where
  session : Option Nat := none
  unsupported : Bool := false
  deaf : Option Bool := none
  mute : Option Bool := none
  self_deaf : Option Bool := none
  self_mute : Option Bool := none
  channel_id : Option Nat := none
  listening_channel_add : List Nat := []
  listening_channel_remove : List Nat := []
  plugin_context : Option (List Byte) := none

structure ChannelState where
  channel_id : Option Nat
  parent : Option Nat
  name : Option (List Byte)
  temporary : Bool

structure VoiceTarget.Target where
  session : List Nat
  channel_id : Option Nat
  links : Bool
  children : Bool

namespace Server

variable (w : Server)

/-- A client that authenticates. One that may not is closed. -/
def authenticate (conf : Conf) (banned : Bool) (c : ClientPtr) (msg : Authenticate) : Server :=
  let username := cstr msg.username
  if (w.client c).authenticated then
    -- Tokens are changed by the user.
    w.modifyClient c fun client => addTokens { client with tokens := [] } msg.tokens
  else if banned then w.clientClose c
  else if w.clients.any fun itr => (w.client itr).authenticated &&
      (w.client itr).username.any fun name => strnEq name username MAX_USERNAME then w.clientClose c
  else if 0 < conf.passphrase.length ∧ strnEq conf.passphrase (cstr msg.password) MAX_TEXT = false then w.clientClose c
  else if username.length = 0 ∨ MAX_USERNAME ≤ username.length then w.clientClose c
  else if conf.maxClients ≤ w.clients.length then w.clientClose c
  else
    let w := w.modifyClient c fun client =>
      addTokens { client with authenticated := true, username := some username } msg.tokens
    let w := w.modifyClient c fun client => { client with
      isAdmin := client.isAdmin || (0 < conf.adminPassphrase.length && tokenMatch client conf.adminPassphrase) }
    w.userJoin w.defaultChan c

/-- What a client asks for about deafness and muteness. A message that deafens also mutes, and one that unmutes
undeafens. -/
def applyFlags (deaf mute : Option Bool) (flags : Bool × Bool) : Bool × Bool :=
  let mute := if deaf = some true then some true else mute
  match mute with
  | none => (deaf.getD flags.1, flags.2)
  | some false => (false, false)
  | some true => (deaf.getD flags.1, true)

/-- Whether the client may be moved to the channel, as `Chan_userJoin_id_test` and its caller say. -/
def mayJoin (ch : ChannelPtr) (target c : ClientPtr) : Bool :=
  let wrongpw := (w.channel ch).password.any fun password =>
    !tokenMatch (w.client target) password && !(w.client target).isAdmin
  !(w.channel ch).noenter && (!wrongpw || (w.client c).isAdmin)

/-- The part of a `UserState` message that moves the target: `none` when the message ends there. The second value
says that the target was listening to the channel. -/
def moveUser (target c : ClientPtr) : Option Nat → Option (Server × List Nat)
  | none => some (w, [])
  | some channelid =>
    match w.fromId channelid with
    | none => none
    | some ch =>
      if w.mayJoin ch target c then
        let w := w.userJoin ch target
        some (w, if w.isListening (w.client target).sessionId channelid then [channelid] else [])
      else none

/-- The channels that a message may listen to. -/
def listenable (ids : List Nat) : List Nat :=
  ids.filter fun id => (w.fromId id).any fun ch => (w.channel ch).password.isNone

/-- A message about the client itself, or from an admin about another one. -/
def userState (c : ClientPtr) (msg : UserState) : Server :=
  let other := msg.session.any fun session => session ≠ (w.client c).sessionId
  if other = true ∧ (w.client c).isAdmin = false then w
  else
    let found := if other then w.clients.find? fun itr => some (w.client itr).sessionId = msg.session else some c
    match found with
    | none => w
    | some target =>
      if msg.unsupported then w
      else
        let adding := w.listenable msg.listening_channel_add
        let w := w.modifyClient target fun client =>
          let (deaf, mute) := applyFlags msg.deaf msg.mute (client.deaf, client.mute)
          { client with deaf, mute }
        let w := w.modifyClient c fun client =>
          let (self_deaf, self_mute) := applyFlags msg.self_deaf msg.self_mute (client.self_deaf, client.self_mute)
          { client with self_deaf, self_mute }
        match w.moveUser target c msg.channel_id with
        | none => w
        | some (w, removing) =>
          let session := (w.client target).sessionId
          let w := adding.foldl (fun w id => w.addListener session id) w
          let w := (msg.listening_channel_remove ++ removing).foldl
            (fun w id => if (w.fromId id).isSome then w.removeListener session id else w) w
          match msg.plugin_context with
          | none => w
          | some context => w.modifyClient c fun client => { client with context := some context }

/-- A temporary channel that the client makes and joins. -/
def channelState (c : ClientPtr) (msg : ChannelState) : Server :=
  if msg.channel_id.isSome then w
  else
    match msg.parent, msg.name with
    | some parentId, some name =>
      let name := cstr name
      if msg.temporary = false ∨ MAX_TEXT < name.length then w
      else
        match w.fromId parentId with
        | none => w
        | some parent =>
          if (w.channel parent).subs.any fun sub => (w.channel sub).name = name then w
          else if (w.channel parent).temporary then w
          else
            let (newchan, w) := w.createChannel name
            let w := w.modifyChannel newchan fun channel => { channel with temporary := true }
            let w := w.addChannel parent newchan
            w.userJoin newchan c
    | _, _ => w

/-- `fx::MumbleVoice::CreateChannel`, with the name that it makes of the id. -/
def createGameChannel (channelName : Name) : Server :=
  match w.fromId 0 with
  | none => w
  | some parent =>
    if (w.channel parent).subs.any fun sub => (w.channel sub).name = channelName then w
    else
      let (newChannel, w) := w.createChannel channelName
      w.addChannel parent newChannel

/-- `Client_set_player_muted`: the first client whose name has the server id in brackets. -/
def setPlayerMuted (convertedServerId : Name) (muted : Bool) : Server :=
  match w.clients.find? fun c => (w.client c).username.any fun username => strstr username convertedServerId with
  | none => w
  | some c => w.modifyClient c fun client => { client with mute := muted }

/-- A target takes the place of the one with its number. Sessions and channels are added as long as there is room,
and -1 leaves its place free. A number from 2 ^ 31 on is negative. -/
def voiceTarget (c : ClientPtr) (targetId : Nat) (targets : List VoiceTarget.Target) : Server :=
  if targetId = 0 ∨ 0x1f ≤ targetId ∧ targetId < 2 ^ 31 then w
  else
    let sessions := ((targets.flatMap (·.session)).filter (· ≠ 2 ^ 32 - 1)).take TARGET_MAX_SESSIONS
    let channels := ((targets.filterMap fun target =>
      target.channel_id.map fun channel => ⟨channel, target.links, target.children⟩).filter
        (·.channel ≠ 2 ^ 32 - 1)).take TARGET_MAX_CHANNELS
    w.modifyClient c fun client => { client with
      voicetargets := client.voicetargets.filter (·.id ≠ targetId) ++ [⟨targetId, channels, sessions⟩] }

/-- An admin throws a client out. -/
def userRemove (c : ClientPtr) (session : Nat) : Server :=
  if (w.client c).isAdmin = false then w
  else
    match w.clients.find? fun itr => (w.client itr).sessionId = session with
    | none => w
    | some target => w.clientClose target

end Server

end mumble
