import Citizen.Mumble.Changes

open Bits
open Transition

namespace mumble

/-- A second has passed. -/
def Action.ticks : Action → Bool
  | .janitor => true
  | _ => false

namespace Server

variable {conf : Conf} {w w' : Server} {c s : ClientPtr} {a : Action} {changed : ClientPtr → Prop}

/-- What may be saved up. -/
def bwTop (conf : Conf) : Nat := conf.maxBandwidth + conf.maxBandwidth / 4

/-- What an action of a client takes of its bandwidth. -/
def cost (w : Server) (c : ClientPtr) : Action → Nat
  | .voice s data => if s = c ∧ (w.relaysTo s data).isSome then packetsize data else 0
  | _ => 0

/-- The bytes of the packets that are relayed for a client. -/
def spent (conf : Conf) (c : ClientPtr) : Server → List Action → Nat
  | _, [] => 0
  | w, a :: acts => w.cost c a + ((step conf w a).elim 0 fun w' => spent conf c w' acts)

/-- What is left of the bandwidth of each client, and is not more than may be saved up. -/
def Bounded (conf : Conf) (w : Server) : Prop :=
  ∀ c, 0 ≤ (w.client c).availableBandwidth ∧ (w.client c).availableBandwidth ≤ bwTop conf

/-- What is spent and what is left is at most what there was and what a second brings. -/
structure Balanced (conf : Conf) (w : Server) (a : Action) (w' : Server) : Prop where
  old : (∀ c ∈ w.clients, c < w.nextClient) → ∀ c ∈ w'.clients, c < w'.nextClient
  nextClient : w.nextClient ≤ w'.nextClient
  bounded : Bounded conf w → Bounded conf w'
  balance : ∀ c < w.nextClient, w.cost c a + (w'.client c).availableBandwidth ≤
    (w.client c).availableBandwidth + if a.ticks then conf.maxBandwidth else 0

theorem Alters.balanced (h : Alters changed w w') (hcost : ∀ c, w.cost c a = 0) : Balanced conf w a w' := by
  refine ⟨?_, h.nextClient.ge, fun hbounded c => ?_, fun c _ => ?_⟩
  · rw [h.clients, h.nextClient]
    exact id
  · rw [h.bandwidth]
    exact hbounded c
  · rw [hcost, h.bandwidth]
    split <;> omega

theorem balanced_voice {data : List Byte} {sent : List (ClientPtr × List Byte)}
    (h : w.voiceMsg s data = some (w', sent)) :
    Balanced conf w (.voice s data) w' := by
  obtain ⟨hnone, rfl⟩ | ⟨hrelays, rfl⟩ := voiceMsg_state h
  · refine (Acts.refl w' : Acts (fun _ => False) w' w').balanced fun c => if_neg ?_
    rw [hnone]
    exact fun hrelays => Bool.false_ne_true hrelays.2
  · have henough : (packetsize data : Int) ≤ (w.client s).availableBandwidth := by
      unfold relaysTo at hrelays
      split at hrelays
      next => cases hrelays
      next => omega
    have hleft : ∀ c, ((w.modifyClient s fun client =>
        { client with availableBandwidth := client.availableBandwidth - packetsize data }).client
          c).availableBandwidth =
        (w.client c).availableBandwidth - if s = c then packetsize data else 0 := by
      intro c
      by_cases heq : c = s
      · rw [heq, modifyClient_self, if_pos rfl]
      · rw [modifyClient_of_ne w _ heq, if_neg (Ne.symm heq)]
        exact (Int.sub_zero _).symm
    refine ⟨id, Nat.le_refl _, fun hbounded c => ?_, fun c _ => ?_⟩
    · have hc := hbounded c
      rw [hleft]
      split
      next heq =>
        subst heq
        omega
      next => omega
    · have hcost : w.cost c (.voice s data) = if s = c then packetsize data else 0 := by
        unfold cost
        simp only [hrelays, and_true]
      rw [hleft, hcost]
      split <;> split <;> omega

theorem balanced_janitor (conf : Conf) (w : Server) : Balanced conf w .janitor (w.janitor conf) := by
  refine ⟨id, Nat.le_refl _, fun hbounded c => ?_, fun c _ => ?_⟩
  · have hc := hbounded c
    unfold janitor
    dsimp only
    split
    · unfold refill bwTop at *
      dsimp only
      omega
    · exact hc
  · change 0 + _ ≤ _ + (conf.maxBandwidth : Int)
    unfold janitor
    dsimp only
    split
    · unfold refill
      dsimp only
      omega
    · omega

theorem balanced_clientAdd (conf : Conf) (w : Server) : Balanced conf w .connect (w.clientAdd conf) := by
  have hnew : (w.clientAdd conf).client w.nextClient =
      { sessionId := w.findFreeSessionId, availableBandwidth := conf.maxBandwidth } := Function.update_self _ _ _
  have hold : ∀ c ≠ w.nextClient, (w.clientAdd conf).client c = w.client c := fun c hc => Function.update_of_ne hc _ _
  refine ⟨fun hold c hc => ?_, Nat.le_succ _, fun hbounded c => ?_, fun c hc => ?_⟩
  · obtain hin | hmade := List.mem_append.mp hc
    · exact Nat.lt_succ_of_lt (hold c hin)
    · rw [List.mem_singleton.mp hmade]
      exact Nat.lt_succ_self _
  · by_cases heq : c = w.nextClient
    · rw [heq, hnew]
      unfold bwTop
      dsimp only
      omega
    · rw [hold c heq]
      exact hbounded c
  · rw [hold c hc.ne]
    change 0 + _ ≤ _ + 0
    omega

theorem balanced_clientFree (w : Server) (s : ClientPtr) : Balanced conf w (.disconnect s) (w.clientFree s) := by
  obtain ⟨hclient, hclients, hnextClient, _⟩ := clientFree_fields w s
  refine ⟨fun hold c hc => ?_, hnextClient.ge, fun hbounded c => ?_, fun c _ => ?_⟩
  · rw [hclients] at hc
    rw [hnextClient]
    exact hold c (List.mem_of_mem_erase hc)
  · rw [hclient]
    exact hbounded c
  · rw [hclient]
    change 0 + _ ≤ _ + 0
    omega

theorem balanced_step (hstep : step conf w a = some w') : Balanced conf w a w' := by
  cases kind_of_step hstep with
  | acts _ hquiet hacts =>
    refine hacts.balanced fun c => ?_
    cases a with
    | voice s data => exact absurd rfl (hquiet s data)
    | _ => rfl
  | @authenticate s banned msg _ =>
    exact (alters_authenticate w conf banned s msg).balanced fun _ => rfl
  | voice _ hvoice => exact balanced_voice hvoice
  | connect => exact balanced_clientAdd conf w
  | disconnect => exact balanced_clientFree w _
  | janitor => exact balanced_janitor conf w

theorem spent_add_le {ok : Server → Action → Prop} {acts : List Action} (hrun : Run (step conf) ok w acts w')
    (hc : c < w.nextClient) : spent conf c w acts + (w'.client c).availableBandwidth ≤
      (w.client c).availableBandwidth + conf.maxBandwidth * acts.countP Action.ticks := by
  induction hrun with
  | nil w =>
    change 0 + _ ≤ _ + _ * 0
    omega
  | @cons w w₁ w' a acts hok hstep hrest ih =>
    have hbalance := balanced_step hstep
    have hhead := hbalance.balance c hc
    have htail := ih (lt_of_lt_of_le hc hbalance.nextClient)
    have hspent : spent conf c w (a :: acts) = w.cost c a + spent conf c w₁ acts := by
      rw [spent, hstep]
      rfl
    rw [hspent, List.countP_cons]
    by_cases hticks : a.ticks = true
    · rw [if_pos hticks] at hhead ⊢
      push_cast
      rw [Int.mul_add, Int.mul_one]
      omega
    · rw [if_neg hticks] at hhead ⊢
      push_cast
      rw [Int.add_zero]
      omega

/-- Nobody has bandwidth before it connects. -/
theorem bounded_chanInit {channels : List ConfChannel} {defaultChannelName : Name} {links : List (Name × Name)}
    (h : chanInit channels defaultChannelName links = some w) : Bounded conf w := by
  have hzero : ∀ {w : Server}, (∀ c, (w.client c).availableBandwidth = 0) → Bounded conf w := by
    intro w hzero c
    rw [hzero]
    exact ⟨Int.le_refl 0, Int.natCast_nonneg _⟩
  cases channels with
  | nil => cases h
  | cons chdesc rest =>
    obtain ⟨w₁, hchannels, h⟩ := Option.bind_eq_some_iff.mp h
    have hadd : ∀ {w : Server} {chdesc : ConfChannel} {w' : Server}, (∀ c, (w.client c).availableBandwidth = 0) →
        w.addConfChannel defaultChannelName chdesc = some w' → ∀ c, (w'.client c).availableBandwidth = 0 := by
      intro w chdesc w' hw hadd c
      unfold addConfChannel createChannel at hadd
      dsimp only at hadd
      split at hadd
      · obtain ⟨parent, _, rfl⟩ := Option.map_eq_some_iff.mp hadd
        exact hw c
      · obtain ⟨parent, _, rfl⟩ := Option.map_eq_some_iff.mp hadd
        exact hw c
    have hlink : ∀ {w : Server} {link : Name × Name} {w' : Server}, (∀ c, (w.client c).availableBandwidth = 0) →
        w.addLink link = some w' → ∀ c, (w'.client c).availableBandwidth = 0 := by
      intro w link w' hw hlink
      obtain ⟨_, _, hlink⟩ := Option.bind_eq_some_iff.mp hlink
      obtain ⟨_, _, rfl⟩ := Option.map_eq_some_iff.mp hlink
      exact hw
    have hw₁ := Loop.foldlM_invariant (fun w : Server => ∀ c, (w.client c).availableBandwidth = 0) (fun _ => hadd)
      (fun _ => rfl) hchannels
    split at h
    next => cases h
    next => exact hzero (Loop.foldlM_invariant _ (fun _ => hlink) hw₁ h)

/-- Over any stretch of a run, what is relayed for a client costs no more than it had, and what the seconds brought
it. No step is forbidden in either part of the run. -/
theorem bandwidth_of_run {channels : List ConfChannel} {defaultChannelName : Name} {links : List (Name × Name)}
    {w₀ : Server} {acts acts' : List Action} {ok ok' : Server → Action → Prop}
    (hinit : chanInit channels defaultChannelName links = some w₀) (hrun : Run (step conf) ok w₀ acts w)
    (hc : c ∈ w.clients)
    (hrun' : Run (step conf) ok' w acts' w') :
    0 ≤ (w'.client c).availableBandwidth ∧ (w.client c).availableBandwidth ≤ bwTop conf ∧
      spent conf c w acts' + (w'.client c).availableBandwidth ≤
        (w.client c).availableBandwidth + conf.maxBandwidth * acts'.countP Action.ticks := by
  have hfresh : ∀ c ∈ w₀.clients, c < w₀.nextClient := by simp [(fresh_chanInit hinit).clients]
  obtain ⟨hold, hbounded⟩ := hrun.invariant (fun w => (∀ c ∈ w.clients, c < w.nextClient) ∧ Bounded conf w)
    ⟨hfresh, bounded_chanInit hinit⟩ fun h _ hstep =>
      ⟨(balanced_step hstep).old h.1, (balanced_step hstep).bounded h.2⟩
  have hbounded' := hrun'.invariant (Bounded conf) hbounded fun h _ hstep => (balanced_step hstep).bounded h
  exact ⟨(hbounded' c).1, (hbounded c).2, spent_add_le hrun' (hold c hc)⟩

/-- A client with 6000 bytes a second sends a long packet and one that is too long for the rest, and another a
second later. -/
def loudActs : List Action :=
  [.voice 0 (List.replicate 5000 0x80#8), .voice 0 (List.replicate 1500 0x80#8), .janitor,
    .voice 0 (List.replicate 1500 0x80#8)]

theorem bandwidth_of_run_loud : ∃ w₀ w w', chanInit twoChannels [76#8] [] = some w₀ ∧
    Run (step plainConf) (fun _ _ => True) w₀ [.connect, .authenticate 0 false ⟨[65#8], [], []⟩] w ∧
    Run (step plainConf) (fun _ _ => True) w loudActs w' ∧ spent plainConf 0 w loudActs = 5032 + 1532 ∧
    0 ≤ (w'.client 0).availableBandwidth ∧ (w.client 0).availableBandwidth ≤ bwTop plainConf ∧
    spent plainConf 0 w loudActs + (w'.client 0).availableBandwidth ≤
      (w.client 0).availableBandwidth + plainConf.maxBandwidth * loudActs.countP Action.ticks := by
  have hend : (exec (step plainConf) ((chanInit twoChannels [76#8] []).get twoChannels_isSome)
      [.connect, .authenticate 0 false ⟨[65#8], [], []⟩]).any (fun w => 0 ∈ w.clients ∧
        spent plainConf 0 w loudActs = 5032 + 1532 ∧ (exec (step plainConf) w loudActs).any (fun _ => true) = true) =
          true := by
    decide +kernel
  obtain ⟨w, hrun, hend⟩ := exists_run hend
  obtain ⟨hc, hspent, hend⟩ := of_decide_eq_true hend
  obtain ⟨w', hrun', _⟩ := exists_run hend
  have hinit := (Option.some_get twoChannels_isSome).symm
  exact ⟨_, w, w', hinit, hrun, hrun', hspent, bandwidth_of_run hinit hrun hc hrun'⟩

end Server

end mumble
