import Citizen.Mumble.Pds
import Citizen.Mumble.Server
import Mathlib.Data.List.Dedup

open Bits

namespace mumble

def UDP_PACKET_SIZE : Nat := 1024

def UDPVoiceOpus : Nat := 4

/-- Frames of the codecs before Opus are skipped, up to one without the flag that another follows. Each takes a byte
at least. -/
def skipFrames : Nat → Pds → Pds
  | 0, pds => pds
  | fuel + 1, pds =>
    let (counter, pds) := pds.next
    let (offset, pds) := pds.skip (counter &&& 0x7f)
    if counter &&& 0x80 ≠ 0 ∧ offset > 0 then skipFrames fuel pds else pds

/-- Past the sequence number and the frames of a packet. -/
def skipVoice (type : Nat) (pdi : Pds) : Pds :=
  let (_, pdi) := pdi.get_numval
  if type >>> 5 ≠ UDPVoiceOpus then skipFrames (pdi.rest.length + 1) pdi
  else
    let (size, pdi) := pdi.get_numval
    (pdi.skip (size.toNat &&& 0x1fff)).2

/-- The length of the positional information behind the frames of a packet. -/
def poslen (data : List Byte) : Nat :=
    (skipVoice ((data.headD 0).toNat &&& 0xe0) (Pds.create (data.drop 1))).rest.length

/-- The session of the one who speaks, and what the packet said behind its first byte. -/
def relayStream (sessionId : Nat) (data : List Byte) : Pds :=
  ((Pds.create (List.replicate (UDP_PACKET_SIZE - 1) 0)).add_numval (BitVec.ofNat 64 sessionId)).append_data_nosize
    (data.drop 1)

namespace Server

variable (w : Server)

def bySession (session : Nat) : Option ClientPtr := w.clients.find? fun c => (w.client c).sessionId = session

/-- The clients whose sessions listen to a channel. -/
def listenersForChannel (ch : ChannelPtr) : List ClientPtr :=
  w.clients.filter fun c => (w.client c).sessionId ∈ w.m_listenedChannels (w.channel ch).id ∧
    w.bySession (w.client c).sessionId = some c

/-- Those who hear what is said in a channel. -/
def channelSpeech (ch : ChannelPtr) : List ClientPtr := (w.channel ch).clients ++ w.listenersForChannel ch

/-- The channel and those below it. -/
def buildTreeList : Nat → ChannelPtr → List ChannelPtr
  | 0, _ => []
  | fuel + 1, ch => ch :: (w.channel ch).subs.flatMap (buildTreeList fuel)

/-- Those who hear a whisper to a channel through a link. -/
def linkSpeech (ch ch_link : ChannelPtr) : List ClientPtr :=
  ((w.listenersForChannel ch_link).filter fun c =>
    (w.client c).channel ≠ some ch ∧ w.isListening (w.client c).sessionId (w.channel ch).id = false) ++
  (w.channel ch_link).clients.filter fun c => w.isListening (w.client c).sessionId (w.channel ch_link).id = false

/-- Those who hear a whisper to a channel. -/
def whisperChannel (target : ChannelTarget) : List ClientPtr :=
  match w.fromId target.channel with
  | none => []
  | some ch => w.channelSpeech ch ++
    (if target.linked then (w.channel ch).channel_links.flatMap (w.linkSpeech ch) else []) ++
    if target.children then (w.buildTreeList w.channels.length ch).flatMap fun sub => (w.channel sub).clients else []

/-- The one who hears a whisper to a session, unless its channel was whispered to. -/
def whisperSession (targeted_channels : List Nat) (session : Nat) : Option ClientPtr :=
  w.clients.find? fun c => (w.client c).sessionId = session ∧
    ((w.client c).channel.all fun ch => (w.channel ch).id ∉ targeted_channels) = true

def whisper (vt : VoiceTarget) : List ClientPtr :=
  let targeted_channels := vt.channels.filterMap fun target => (w.fromId target.channel).map fun ch =>
    (w.channel ch).id
  vt.channels.flatMap w.whisperChannel ++ vt.sessions.filterMap (w.whisperSession targeted_channels)

/-- Those who hear a client that speaks in a channel, to one of its targets. -/
def listeningUsers (c : ClientPtr) (ch : ChannelPtr) (target : Nat) : List ClientPtr :=
  if target = 0 then (w.channelSpeech ch).dedup
  else
    match (w.client c).voicetargets.find? (·.id = target) with
    | none => []
    | some vt => (w.whisper vt).dedup

/-- Whether a destination has the context of the source, and there is positional information. -/
def samePlace (src dst : ClientPtr) (poslen : Nat) : Bool :=
  0 < poslen && (w.client src).context.any fun context => (w.client dst).context.any fun context' =>
    cstr context = cstr context'

/-- `Client_send_voice`: what a destination is sent. -/
def sendVoice (src dst : ClientPtr) (data : List Byte) (poslen : Nat) : Option (ClientPtr × List Byte) :=
  if (w.client dst).authenticated = true ∧ dst ≠ src ∧ (w.client dst).deaf = false ∧
    (w.client dst).self_deaf = false then
    some (dst, if w.samePlace src dst poslen then data else data.take (data.length - poslen))
  else none

/-- The channel that a client may speak in: it is not muted, and the channel is not silent. -/
def speaksIn (c : ClientPtr) : Option ChannelPtr :=
  if (w.client c).authenticated = true ∧ (w.client c).mute = false ∧ (w.client c).self_mute = false then
    (w.client c).channel.filter fun ch => !(w.channel ch).silent
  else none

/-- What a packet costs. -/
def packetsize (data : List Byte) : Nat := 20 + 8 + 4 + data.length

/-- The channel of a packet that is relayed. -/
def relaysTo (c : ClientPtr) (data : List Byte) : Option ChannelPtr :=
  if (w.client c).availableBandwidth - packetsize data < 0 then none else w.speaksIn c

/-- A voice packet, and what is sent for it: `none` when a packet without its positional information would have a
length below zero. -/
def voiceMsg (c : ClientPtr) (data : List Byte) : Option (Server × List (ClientPtr × List Byte)) :=
  match w.relaysTo c data with
  | none => some (w, [])
  | some ch =>
    let type := (data.headD 0).toNat &&& 0xe0
    let target := (data.headD 0).toNat &&& 0x1f
    let w := w.modifyClient c fun client =>
      { client with availableBandwidth := client.availableBandwidth - packetsize data }
    let pds := relayStream (w.client c).sessionId data
    -- Loopback.
    if target = 0x1f then some (w, [(c, BitVec.ofNat 8 type :: pds.before)])
    else
      let buffer := BitVec.ofNat 8 (type ||| 3) :: pds.before
      let sent := (w.listeningUsers c ch target).filterMap fun dst => w.sendVoice c dst buffer (poslen data)
      if pds.offset + 1 < poslen data ∧ sent.any (fun d => !w.samePlace c d.1 (poslen data)) = true then none
      else some (w, sent)

end Server

end mumble
