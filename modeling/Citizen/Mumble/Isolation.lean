import Citizen.Mumble.Changes

open Bits
open Transition

namespace mumble

namespace Action

/-- A message that authenticates with the passphrase of admins. -/
def privileged (conf : Conf) : Action → Bool
  | .authenticate _ _ msg => 0 < conf.adminPassphrase.length &&
      msg.tokens.any fun token => strniEq (cstr token) conf.adminPassphrase MAX_TOKENSIZE
  | _ => false

/-- Neither the client itself, nor the clock and the game, which give bandwidth and mute. -/
def elsewhere (c : ClientPtr) : Action → Bool
  | .janitor | .setPlayerMuted _ _ => false
  | a => a.source ≠ some c

end Action

namespace Server

variable {conf : Conf} {w w₁ w' : Server} {c s : ClientPtr} {a : Action} {changed : ClientPtr → Prop}

/-- Nobody is an admin, and nobody has tokens before it authenticates. -/
structure Plain (w : Server) : Prop where
  noAdmin : ∀ c ∈ w.clients, (w.client c).isAdmin = false
  noTokens : ∀ c ∈ w.clients, (w.client c).authenticated = false → (w.client c).tokens = []

theorem mem_addTokens {client : Client} {tokens : List (List Byte)} {token : Name}
    (h : token ∈ (addTokens client tokens).tokens) : token ∈ client.tokens ∨ ∃ sent ∈ tokens, cstr sent = token := by
  unfold addTokens at h
  split at h
  · split at h
    · exact .inl h
    · exact (List.mem_append.mp h).imp id List.mem_map.mp
  · exact .inl h

/-- What is left as it was but for one client stays plain when that one does. -/
theorem Alters.plain (h : Alters (· = s) w w') (hplain : Plain w) (hadmin : (w'.client s).isAdmin = false)
    (htokens : (w'.client s).authenticated = false → (w'.client s).tokens = []) : Plain w' := by
  refine ⟨fun c hc => ?_, fun c hc => ?_⟩
  · by_cases heq : c = s
    · exact heq ▸ hadmin
    · rw [h.others c heq]
      exact hplain.noAdmin c (h.clients ▸ hc)
  · by_cases heq : c = s
    · exact heq ▸ htokens
    · rw [h.others c heq]
      exact hplain.noTokens c (h.clients ▸ hc)

theorem Plain.of_same (h : Plain w) (hclients : ∀ c ∈ w'.clients, c ∈ w.clients)
    (hadmin : ∀ c, (w'.client c).isAdmin = (w.client c).isAdmin)
    (hauth : ∀ c, (w'.client c).authenticated = (w.client c).authenticated)
    (htokens : ∀ c, (w'.client c).tokens = (w.client c).tokens) : Plain w' := by
  refine ⟨fun c hc => (hadmin c).trans (h.noAdmin c (hclients c hc)), fun c hc => ?_⟩
  rw [hauth, htokens]
  exact h.noTokens c (hclients c hc)

theorem Plain.authenticate (h : Plain w) {banned : Bool} {msg : Authenticate} (hs : s ∈ w.clients)
    (hnot : (Action.authenticate s banned msg).privileged conf = false) :
    Plain (w.authenticate conf banned s msg) := by
  have hadmin := h.noAdmin s hs
  have htokens := h.noTokens s hs
  have hclosed : ((w.clientClose s).client s).isAdmin = false ∧
      (((w.clientClose s).client s).authenticated = false → ((w.clientClose s).client s).tokens = []) := by
    unfold clientClose
    rw [modifyClient_self]
    exact ⟨hadmin, htokens⟩
  suffices hrights : ((w.authenticate conf banned s msg).client s).isAdmin = false ∧
      (((w.authenticate conf banned s msg).client s).authenticated = false →
        ((w.authenticate conf banned s msg).client s).tokens = []) from
    (alters_authenticate w conf banned s msg).plain h hrights.1 hrights.2
  unfold Server.authenticate
  dsimp only
  split
  next hauth =>
    rw [modifyClient_self, addTokens_eq]
    exact ⟨hadmin, fun hfalse => Bool.noConfusion (hauth.symm.trans hfalse)⟩
  next hnew =>
    repeat' split
    all_goals try exact hclosed
    have hjoins : ∀ w : Server, Acts (· = s) w (w.userJoin w.defaultChan s) := fun w => acts_userJoin w _ rfl
    rw [(hjoins _).isAdmin, (hjoins _).authenticated, (hjoins _).tokens, modifyClient_self, modifyClient_self]
    dsimp only
    have hfields := addTokens_eq { w.client s with authenticated := true, username := some (cstr msg.username) }
      msg.tokens
    refine ⟨?_, fun hfalse => ?_⟩
    · have hmatch : (decide (0 < conf.adminPassphrase.length) && tokenMatch (addTokens
          { w.client s with authenticated := true, username := some (cstr msg.username) } msg.tokens)
          conf.adminPassphrase) = false := by
        rw [← Bool.not_eq_true, Bool.and_eq_true]
        rintro ⟨hlen, hmatch⟩
        obtain ⟨token, htoken, heq⟩ := List.any_eq_true.mp hmatch
        obtain hold | ⟨sent, hsent, rfl⟩ := mem_addTokens htoken
        · rw [htokens (by simpa using hnew)] at hold
          cases hold
        · have hpriv : (Action.authenticate s banned msg).privileged conf = true :=
            Bool.and_eq_true_iff.mpr ⟨hlen, List.any_eq_true.mpr ⟨sent, hsent, heq⟩⟩
          rw [hnot] at hpriv
          cases hpriv
      rw [hmatch, Bool.or_false, hfields]
      exact hadmin
    · rw [hfields] at hfalse
      cases hfalse

theorem Coherent.step_of_plain (h : Coherent w) (hplain : Plain w) (hstep : Server.step conf w a = some w') :
    Coherent w' := by
  by_cases hmoves : w.MovesMember a
  · exact h.step hmoves hstep
  cases a with
  | userState c msg =>
    obtain ⟨hc, heq⟩ := Option.ite_none_right_eq_some.mp hstep
    obtain rfl := Option.some.inj heq
    split
    next hauth =>
      by_cases hother : (msg.session.any fun session => decide (session ≠ (w.client c).sessionId)) = true
      · -- Only admins may speak of another client.
        have hsame : w.userState c msg = w := by
          unfold Server.userState
          dsimp only
          rw [if_pos ⟨hother, hplain.noAdmin c hc⟩]
        rw [hsame]
        exact h
      · refine absurd (fun _ target htarget => ?_) hmoves
        unfold targetOf at htarget
        rw [if_neg hother] at htarget
        exact Option.some.inj htarget ▸ hauth
    next => exact h
  | _ => exact absurd trivial hmoves

/-- It is still there, as it was, and its session listens to what it did. -/
structure Untouched (c : ClientPtr) (w w' : Server) : Prop where
  present : c ∈ w'.clients
  record : w'.client c = w.client c
  listens : ∀ id, (w.client c).sessionId ∈ w'.m_listenedChannels id ↔ (w.client c).sessionId ∈ w.m_listenedChannels id

theorem Untouched.refl (hc : c ∈ w.clients) : Untouched c w w := ⟨hc, rfl, fun _ => Iff.rfl⟩

theorem Untouched.trans (h : Untouched c w w₁) (h' : Untouched c w₁ w') : Untouched c w w' :=
  ⟨h'.present, h'.record.trans h.record, fun id => (h.record ▸ h'.listens id).trans (h.listens id)⟩

theorem Alters.untouched (h : Alters changed w w') (hsessions : Sessions w) (hc : c ∈ w.clients)
    (hother : ∀ s, changed s → s ∈ w.clients ∧ c ≠ s) : Untouched c w w' := by
  refine ⟨h.clients ▸ hc, h.others c fun hchanged => (hother c hchanged).2 rfl, h.listens _ fun s hs heq => ?_⟩
  obtain ⟨hin, hne⟩ := hother s hs
  exact hne (List.inj_on_of_nodup_map hsessions.sessions hc hin heq)

/-- Only its sender is changed by a message, and whom the game mutes. -/
theorem Plain.source_of_changed (h : Plain w) (hsource : ∀ s, a.source = some s → s ∈ w.clients)
    (hchanged : w.Changed a s) :
    a.source = some s ∨ ∃ id muted, a = .setPlayerMuted id muted := by
  cases a with
  | authenticate s' banned msg => exact .inl (congrArg some hchanged.symm)
  | channelState s' msg => exact .inl (congrArg some hchanged.symm)
  | voiceTarget s' targetId targets => exact .inl (congrArg some hchanged.symm)
  | userState s' msg =>
    obtain rfl | ⟨hadmin, _⟩ := hchanged
    · exact .inl rfl
    · exact absurd ((h.noAdmin s' (hsource s' rfl)).symm.trans hadmin) Bool.false_ne_true
  | userRemove s' session => exact absurd ((h.noAdmin s' (hsource s' rfl)).symm.trans hchanged.1) Bool.false_ne_true
  | setPlayerMuted id muted => exact .inr ⟨id, muted, rfl⟩
  | _ => exact hchanged.elim

theorem Plain.step (h : Plain w) (hnot : a.privileged conf = false) (hstep : Server.step conf w a = some w') :
    Plain w' := by
  cases kind_of_step hstep with
  | acts _ _ hacts => exact h.of_same (fun c hc => hacts.clients ▸ hc) hacts.isAdmin hacts.authenticated hacts.tokens
  | authenticate hs => exact h.authenticate hs hnot
  | voice hs hvoice =>
    obtain ⟨_, rfl⟩ | ⟨_, rfl⟩ := voiceMsg_state hvoice
    · exact h
    · exact h.of_same (fun c hc => hc) (modifyClient_eq Client.isAdmin w _ rfl)
        (modifyClient_eq Client.authenticated w _ rfl) (modifyClient_eq Client.tokens w _ rfl)
  | connect =>
    have hcases : ∀ c ∈ (w.clientAdd conf).clients, c = w.nextClient ∨ c ≠ w.nextClient ∧ c ∈ w.clients := by
      intro c hc
      by_cases heq : c = w.nextClient
      · exact .inl heq
      · exact .inr ⟨heq, (List.mem_append.mp hc).resolve_right fun hmem => heq (List.mem_singleton.mp hmem)⟩
    have hnew : (w.clientAdd conf).client w.nextClient =
        { sessionId := w.findFreeSessionId, availableBandwidth := conf.maxBandwidth } := Function.update_self _ _ _
    have hold : ∀ c ≠ w.nextClient, (w.clientAdd conf).client c = w.client c :=
      fun c hc => Function.update_of_ne hc _ _
    refine ⟨fun c hc => ?_, fun c hc => ?_⟩
    all_goals obtain rfl | ⟨hne, hc⟩ := hcases c hc
    · rw [hnew]
    · rw [hold c hne]
      exact h.noAdmin c hc
    · rw [hnew]
      exact fun _ => rfl
    · rw [hold c hne]
      exact h.noTokens c hc
  | @disconnect s =>
    obtain ⟨hclient, hclients, _⟩ := clientFree_fields w s
    refine h.of_same (fun c hc => List.mem_of_mem_erase (hclients ▸ hc)) ?_ ?_ ?_
    all_goals exact fun c => by rw [hclient]
  | janitor =>
    have hkeeps : ∀ {α : Type} (field : Client → α), (∀ client, field (refill conf client) = field client) →
        ∀ c, field ((w.janitor conf).client c) = field (w.client c) := by
      intro α field hfield c
      unfold janitor
      dsimp only
      split
      · exact hfield _
      · rfl
    exact h.of_same (fun c hc => hc) (hkeeps _ fun _ => rfl) (hkeeps _ fun _ => rfl) (hkeeps _ fun _ => rfl)

theorem ne_of_elsewhere (h : a.elsewhere c = true) (hsource : a.source = some s) : c ≠ s := by
  rintro rfl
  unfold Action.elsewhere at h
  split at h
  · cases h
  · cases h
  · exact of_decide_eq_true h hsource

theorem untouched_step (h : Coherent w) (hplain : Plain w) (hc : c ∈ w.clients) (helsewhere : a.elsewhere c = true)
    (hstep : Server.step conf w a = some w') : Untouched c w w' := by
  cases kind_of_step hstep with
  | acts hsource _ hacts =>
    refine hacts.toAlters.untouched h.sessions hc fun s hchanged => ?_
    obtain hsends | ⟨id, muted, rfl⟩ := hplain.source_of_changed hsource hchanged
    · exact ⟨hsource s hsends, ne_of_elsewhere helsewhere hsends⟩
    · cases helsewhere
  | @authenticate s banned msg hs =>
    refine (alters_authenticate w conf banned s msg).untouched h.sessions hc ?_
    rintro s' rfl
    exact ⟨hs, ne_of_elsewhere helsewhere rfl⟩
  | voice hs hvoice =>
    obtain ⟨_, rfl⟩ | ⟨_, rfl⟩ := voiceMsg_state hvoice
    · exact .refl hc
    · exact ⟨hc, modifyClient_of_ne w _ (ne_of_elsewhere helsewhere rfl), fun _ => Iff.rfl⟩
  | connect =>
    exact ⟨List.mem_append_left _ hc, Function.update_of_ne (h.sessions.old c hc).ne _ _, fun _ => Iff.rfl⟩
  | @disconnect s =>
    obtain ⟨hclient, hclients, _, hlistened⟩ := clientFree_fields w s
    refine ⟨?_, congrFun hclient c, fun _ => by rw [hlistened]⟩
    rw [hclients]
    exact (List.mem_erase_of_ne (ne_of_elsewhere helsewhere rfl)).mpr hc
  | janitor => cases helsewhere

/-- As long as nobody authenticates with the passphrase of admins, what others do leaves a client as it is: it is
not removed, muted, deafened or moved, and its session listens to what it asked for. -/
theorem untouched_of_run {channels : List ConfChannel} {defaultChannelName : Name} {links : List (Name × Name)}
    {w₀ : Server} {acts acts' : List Action} (hinit : chanInit channels defaultChannelName links = some w₀)
    (hrun : Run (step conf) (fun _ a => a.privileged conf = false) w₀ acts w) (hc : c ∈ w.clients)
    (hrun' : Run (step conf) (fun _ a => a.privileged conf = false ∧ a.elsewhere c = true) w acts' w') :
    Untouched c w w' ∧ Coherent w' := by
  have hfresh := fresh_chanInit hinit
  have hplain₀ : Plain w₀ := by
    constructor
    all_goals simp [hfresh.clients]
  obtain ⟨hcoherent, hplain⟩ := hrun.invariant (fun w => Coherent w ∧ Plain w) ⟨hfresh.coherent, hplain₀⟩
    fun h hnot hstep => ⟨h.1.step_of_plain h.2 hstep, h.2.step hnot hstep⟩
  obtain ⟨huntouched, hcoherent', _⟩ := hrun'.invariant (fun w' => Untouched c w w' ∧ Coherent w' ∧ Plain w')
    ⟨.refl hc, hcoherent, hplain⟩ fun h hok hstep => ⟨h.1.trans (untouched_step h.2.1 h.2.2 h.1.present hok.2 hstep),
      h.2.1.step_of_plain h.2.2 hstep, h.2.2.step hok.1 hstep⟩
  exact ⟨huntouched, hcoherent'⟩

/-- The second client tries to mute and to throw out the first, makes a channel of its own, and goes. -/
def meddlingActs : List Action :=
  [.userState 1 { session := some 1, mute := some true, channel_id := some 0 }, .userRemove 1 1,
    .authenticate 1 false ⟨[66#8], [], [[83#8]]⟩, .channelState 1 ⟨none, some 1, some [88#8], true⟩,
    .userState 1 { listening_channel_add := [1] }, .connect, .disconnect 1]

theorem untouched_of_run_meddling : ∃ w₀ w w', chanInit twoChannels [76#8] [] = some w₀ ∧
    Run (step plainConf) (fun _ a => a.privileged plainConf = false) w₀
      [.connect, .connect, .authenticate 0 false ⟨[65#8], [], []⟩, .authenticate 1 false ⟨[66#8], [], []⟩] w ∧
    Run (step plainConf) (fun _ a => a.privileged plainConf = false ∧ a.elsewhere 0 = true) w meddlingActs w' ∧
    w'.clients = [0, 2] ∧ Untouched 0 w w' ∧ Coherent w' := by
  have hend : (exec (fun w a => if !a.privileged plainConf then step plainConf w a else none)
      ((chanInit twoChannels [76#8] []).get twoChannels_isSome)
      [.connect, .connect, .authenticate 0 false ⟨[65#8], [], []⟩, .authenticate 1 false ⟨[66#8], [], []⟩]).any
      (fun w => 0 ∈ w.clients ∧
        (exec (fun w a => if !a.privileged plainConf && a.elsewhere 0 then step plainConf w a
          else none) w meddlingActs).any (fun w => w.clients = [0, 2]) = true) = true := by decide +kernel
  obtain ⟨w, hrun, hend⟩ := exists_checked (fun _ a hcheck => Bool.not_eq_true' _ ▸ hcheck) hend
  obtain ⟨hc, hend⟩ := of_decide_eq_true hend
  obtain ⟨w', hrun', hend⟩ := exists_checked
    (fun _ a hcheck => (Bool.and_eq_true_iff.mp hcheck).imp_left (Bool.not_eq_true' _ ▸ ·)) hend
  have hinit := (Option.some_get twoChannels_isSome).symm
  exact ⟨_, w, w', hinit, hrun, hrun', of_decide_eq_true hend, untouched_of_run hinit hrun hc hrun'⟩

end Server

end mumble
