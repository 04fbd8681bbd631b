import Citizen.Mumble.VoiceLink

open Bits

namespace mumble

/-- Both ends, the packets that each sent, and what each heard. -/
structure VoiceChannel where
  server : CryptState
  client : MumbleCryptoImpl
  toServer : List Sent
  toClient : List Sent
  atServer : List (Nat × List Byte)
  atClient : List (Nat × List Byte)

inductive ChannelAction
  | clientSends (plain : List Byte)
  | serverSends (plain : List Byte)
  | toServer (n : Nat)
  | toClient (n : Nat)

namespace ChannelAction

/-- What an action is on the way to the server. -/
def upstream : ChannelAction → Option LinkAction
  | .clientSends plain => some (.send plain)
  | .toServer n => some (.deliver n)
  | .serverSends _ | .toClient _ => none

/-- What an action is on the way to the client. -/
def downstream : ChannelAction → Option LinkAction
  | .serverSends plain => some (.send plain)
  | .toClient n => some (.deliver n)
  | .clientSends _ | .toServer _ => none

end ChannelAction

namespace VoiceChannel

/-- The server makes a key and two IVs for a client that authenticated, and sends it all three. -/
def cryptSetup (cs : CryptState) (key : Cipher) (encrypt_iv decrypt_iv : Block) (decryptHistory : Byte → Byte) :
    VoiceChannel where
  server := cs.init.genKey key encrypt_iv decrypt_iv
  client := .new key decrypt_iv encrypt_iv decryptHistory
  toServer := []
  toClient := []
  atServer := []
  atClient := []

def step (w : VoiceChannel) : ChannelAction → Option VoiceChannel
  | .clientSends plain =>
    let (client, packet) := w.client.Encrypt plain
    some { w with client, toServer := w.toServer ++ [⟨client.clientNonce, plain, packet⟩] }
  | .serverSends plain =>
    let (server, packet) := w.server.encrypt plain
    some { w with server, toClient := w.toClient ++ [⟨server.encrypt_iv, plain, packet⟩] }
  | .toServer n => w.toServer[n]?.bind fun sent =>
    match w.server.decrypt sent.packet with
    | none => some w
    | some (plain, server) => some { w with server, atServer := (n, plain) :: w.atServer }
  | .toClient n => w.toClient[n]?.bind fun sent =>
    match w.client.Decrypt sent.packet with
    | none => some w
    | some (plain, client) => some { w with client, atClient := (n, plain) :: w.atClient }

def upstream (w : VoiceChannel) : Link := ⟨w.client.clientNonce, w.server.incoming, w.toServer, w.atServer⟩

def downstream (w : VoiceChannel) : Link := ⟨w.server.encrypt_iv, w.client.server, w.toClient, w.atClient⟩

/-- Each packet comes close to the last one of its direction, and the history does not take it for another. -/
def Allowed (w : VoiceChannel) : ChannelAction → Prop
  | .toServer n => w.upstream.Allowed (.deliver n)
  | .toClient n => w.downstream.Allowed (.deliver n)
  | .clientSends _ | .serverSends _ => True

/-- Both ends have the key. -/
def Keyed (key : Cipher) (w : VoiceChannel) : Prop := w.server.raw_key = key ∧ w.client.key = key

variable {key : Cipher} {w w' : VoiceChannel} {a : ChannelAction} {b : LinkAction} {acts : List ChannelAction}

theorem decrypt_server (w : VoiceChannel) (source : List Byte) : w.server.decrypt source =
    (w.server.incoming.decrypt w.server.raw_key source).map fun r => (r.1, { w.server with incoming := r.2 }) := rfl

theorem decrypt_client (w : VoiceChannel) (source : List Byte) : w.client.Decrypt source =
    (w.client.server.decrypt w.client.key source).map fun r => (r.1, { w.client with server := r.2 }) := rfl

/-- A delivery to the server changes nothing or the server's side of the way up. -/
theorem toServer_cases {n : Nat} (h : w.step (.toServer n) = some w') : ∃ s, w.toServer[n]? = some s ∧
    (w.server.incoming.decrypt w.server.raw_key s.packet = none ∧ w' = w ∨
      ∃ r, w.server.incoming.decrypt w.server.raw_key s.packet = some r ∧
        w' = { w with server := { w.server with incoming := r.2 }, atServer := (n, r.1) :: w.atServer }) := by
  obtain ⟨s, hs, hrest⟩ := Option.bind_eq_some_iff.mp h
  refine ⟨s, hs, ?_⟩
  rw [decrypt_server] at hrest
  cases hdecrypt : w.server.incoming.decrypt w.server.raw_key s.packet with
  | none =>
    rw [hdecrypt] at hrest
    cases hrest
    exact .inl ⟨rfl, rfl⟩
  | some r =>
    rw [hdecrypt] at hrest
    cases hrest
    exact .inr ⟨r, rfl, rfl⟩

/-- A delivery to the client changes nothing or the client's side of the way down. -/
theorem toClient_cases {n : Nat} (h : w.step (.toClient n) = some w') : ∃ s, w.toClient[n]? = some s ∧
    (w.client.server.decrypt w.client.key s.packet = none ∧ w' = w ∨
      ∃ r, w.client.server.decrypt w.client.key s.packet = some r ∧
        w' = { w with client := { w.client with server := r.2 }, atClient := (n, r.1) :: w.atClient }) := by
  obtain ⟨s, hs, hrest⟩ := Option.bind_eq_some_iff.mp h
  refine ⟨s, hs, ?_⟩
  rw [decrypt_client] at hrest
  cases hdecrypt : w.client.server.decrypt w.client.key s.packet with
  | none =>
    rw [hdecrypt] at hrest
    cases hrest
    exact .inl ⟨rfl, rfl⟩
  | some r =>
    rw [hdecrypt] at hrest
    cases hrest
    exact .inr ⟨r, rfl, rfl⟩

theorem Keyed.step (h : Keyed key w) (hstep : w.step a = some w') : Keyed key w' := by
  obtain ⟨hserver, hclient⟩ := h
  cases a with
  | clientSends plain =>
    cases hstep
    exact ⟨hserver, hclient⟩
  | serverSends plain =>
    cases hstep
    exact ⟨hserver, hclient⟩
  | toServer n =>
    obtain ⟨_, _, ⟨_, rfl⟩ | ⟨_, _, rfl⟩⟩ := toServer_cases hstep
    · exact ⟨hserver, hclient⟩
    · exact ⟨hserver, hclient⟩
  | toClient n =>
    obtain ⟨_, _, ⟨_, rfl⟩ | ⟨_, _, rfl⟩⟩ := toClient_cases hstep
    · exact ⟨hserver, hclient⟩
    · exact ⟨hserver, hclient⟩

theorem upstream_seen (h : Keyed key w) (hok : w.Allowed a) (hstep : w.step a = some w') (hact : a.upstream = some b) :
    w.upstream.Allowed b ∧ w.upstream.step key b = some w'.upstream := by
  cases a with
  | clientSends plain =>
    cases hact
    cases hstep
    refine ⟨trivial, ?_⟩
    rw [← h.2]
    rfl
  | toServer n =>
    cases hact
    refine ⟨hok, ?_⟩
    obtain ⟨s, hs, ⟨hnone, rfl⟩ | ⟨r, hsome, rfl⟩⟩ := toServer_cases hstep
    · exact Link.step_refused hs (h.1 ▸ hnone)
    · exact Link.step_heard hs (h.1 ▸ hsome)
  | serverSends plain => cases hact
  | toClient n => cases hact

theorem downstream_seen (h : Keyed key w) (hok : w.Allowed a) (hstep : w.step a = some w')
    (hact : a.downstream = some b) :
    w.downstream.Allowed b ∧ w.downstream.step key b = some w'.downstream := by
  cases a with
  | serverSends plain =>
    cases hact
    cases hstep
    refine ⟨trivial, ?_⟩
    rw [← h.1]
    rfl
  | toClient n =>
    cases hact
    refine ⟨hok, ?_⟩
    obtain ⟨s, hs, ⟨hnone, rfl⟩ | ⟨r, hsome, rfl⟩⟩ := toClient_cases hstep
    · exact Link.step_refused hs (h.2 ▸ hnone)
    · exact Link.step_heard hs (h.2 ▸ hsome)
  | clientSends plain => cases hact
  | toServer n => cases hact

theorem upstream_unseen (hstep : w.step a = some w') (hact : a.upstream = none) : w'.upstream = w.upstream := by
  cases a with
  | serverSends plain =>
    cases hstep
    rfl
  | toClient n =>
    obtain ⟨_, _, ⟨_, rfl⟩ | ⟨_, _, rfl⟩⟩ := toClient_cases hstep
    · rfl
    · rfl
  | clientSends plain => cases hact
  | toServer n => cases hact

theorem downstream_unseen (hstep : w.step a = some w') (hact : a.downstream = none) :
    w'.downstream = w.downstream := by
  cases a with
  | clientSends plain =>
    cases hstep
    rfl
  | toServer n =>
    obtain ⟨_, _, ⟨_, rfl⟩ | ⟨_, _, rfl⟩⟩ := toServer_cases hstep
    · rfl
    · rfl
  | serverSends plain => cases hact
  | toClient n => cases hact

/-- What a receiver heard is what was delivered to it, each packet when it first came, and as it was sent. -/
def Exact (received : List (Nat × List Byte)) (sent : List Sent) (delivered : List Nat) : Prop :=
  received.map Prod.fst = delivered.reverse.dedup ∧ ∀ r ∈ received, ∃ s, sent[r.1]? = some s ∧ s.plain = r.2

/-- Both directions deliver exactly, however the network loses, repeats and reorders packets in the window. The key
exchange gives each direction its own IV. -/
theorem channelExact_of_run {cs : CryptState} {encrypt_iv decrypt_iv : Block} {decryptHistory : Byte → Byte}
    (hrun : Transition.Run step Allowed (cryptSetup cs key encrypt_iv decrypt_iv decryptHistory) acts w) :
    Exact w.atServer w.toServer (Link.delivered (acts.filterMap ChannelAction.upstream)) ∧
      Exact w.atClient w.toClient (Link.delivered (acts.filterMap ChannelAction.downstream)) := by
  have hkeyed : Keyed key (cryptSetup cs key encrypt_iv decrypt_iv decryptHistory) := ⟨rfl, rfl⟩
  have hup := hrun.project upstream ChannelAction.upstream (Keyed key) hkeyed Keyed.step upstream_seen
    fun _ => upstream_unseen
  have hdown := hrun.project downstream ChannelAction.downstream (Keyed key) hkeyed Keyed.step downstream_seen
    fun _ => downstream_unseen
  constructor
  · obtain ⟨hsound, hreceived⟩ := (Link.Sound.start (cs.init.genKey key encrypt_iv decrypt_iv).incoming).run [] rfl hup
    rw [List.append_nil] at hreceived
    exact ⟨hreceived, hsound.received⟩
  · obtain ⟨hsound, hreceived⟩ := (Link.Sound.start ⟨encrypt_iv, decryptHistory, 0, 0, 0⟩).run [] rfl hdown
    rw [List.append_nil] at hreceived
    exact ⟨hreceived, hsound.received⟩

/-- Packets that are next in order or were received, in the window. -/
def check (w : VoiceChannel) : ChannelAction → Bool
  | .toServer n => decide (w.upstream.InWindow n ∧ (n = w.upstream.reached ∨ n ∈ w.atServer.map Prod.fst))
  | .toClient n => decide (w.downstream.InWindow n ∧ (n = w.downstream.reached ∨ n ∈ w.atClient.map Prod.fst))
  | .clientSends _ | .serverSends _ => true

theorem check_allowed (w : VoiceChannel) (a : ChannelAction) (h : check w a = true) : w.Allowed a := by
  cases a with
  | clientSends plain => trivial
  | serverSends plain => trivial
  | toServer n =>
    obtain ⟨hwindow, hknown⟩ := of_decide_eq_true h
    exact ⟨hwindow, hknown.imp id .inl⟩
  | toClient n =>
    obtain ⟨hwindow, hknown⟩ := of_decide_eq_true h
    exact ⟨hwindow, hknown.imp id .inl⟩

def sampleState : CryptState := ⟨VoiceServer.sampleAes, Block.ZERO, ⟨Block.ZERO, fun _ => 0, 0, 0, 0⟩⟩

/-- A packet that reaches the server twice is heard once, as it was sent. -/
theorem channelExact_of_run_repeated : ∃ w, Transition.Run step Allowed
    (cryptSetup sampleState VoiceServer.sampleAes Block.ZERO (Block.load [9, 1]) fun _ => 0)
      [.clientSends [128, 1, 2, 3], .toServer 0, .toServer 0] w ∧
        Exact w.atServer w.toServer [0, 0] ∧ w.atServer = [(0, [128, 1, 2, 3])] := by
  have hexec : (Transition.exec (fun w a => if check w a then step w a else none)
      (cryptSetup sampleState VoiceServer.sampleAes Block.ZERO (Block.load [9, 1]) fun _ => 0)
        [.clientSends [128, 1, 2, 3], .toServer 0, .toServer 0]).any
          (fun w => decide (w.atServer = [(0, [128, 1, 2, 3])])) = true := by decide +kernel
  obtain ⟨w, hrun, htest⟩ := Transition.exists_checked check_allowed hexec
  exact ⟨w, hrun, (channelExact_of_run hrun).1, of_decide_eq_true htest⟩

end VoiceChannel

end mumble
