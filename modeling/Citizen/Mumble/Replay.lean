import Citizen.Lib.Transition
import Citizen.Mumble.CryptState
import Mathlib.Data.BitVec
import Mathlib.Tactic.Ring

open Bits

namespace mumble

namespace Incoming

variable {cipher : Cipher} {cs cs' : Incoming} {source plain : List Byte} {v : Nat} {t d o : Int} {accepted : List Int}
variable {s : Sought}

/-- All that a packet that was accepted has passed, and all that it changed. -/
theorem decrypt_cases (h : cs.decrypt cipher source = some (plain, cs')) : ∃ s,
    seek cs.decrypt_iv (source.headD 0) = some s ∧
      (s.inOrder = true ∨ cs.decrypt_history s.iv.first ≠ s.iv.second) ∧
      plain = (ocb_decrypt cipher (source.drop 4) s.iv).1 ∧ cs' = cs.accept s := by
  rw [decrypt] at h
  split at h
  · cases h
  · obtain ⟨s, hseek, hrest⟩ := Option.bind_eq_some_iff.mp h
    split at hrest
    · cases hrest
    next hfresh =>
      dsimp only at hrest
      split at hrest
      · cases hrest
        refine ⟨s, hseek, ?_, rfl, rfl⟩
        cases horder : s.inOrder with
        | false => exact .inr fun heq => hfresh ⟨horder, heq⟩
        | true => exact .inl rfl
      · cases hrest

/-- The receiver is `t` packets behind the IV `v` that it started at. The packets it accepted are counted from
there, none twice, and the history knows those of the last round. -/
structure Follows (v : Nat) (t : Int) (accepted : List Int) (cs : Incoming) : Prop where
  nonneg : 0 ≤ t
  position : (cs.decrypt_iv.value : Int) = (v + t) % 2 ^ 128
  bounded : ∀ o ∈ accepted, -30 < o ∧ o ≤ t
  nodup : accepted.Nodup
  history : ∀ o ∈ accepted, t - 256 < o → ∀ iv : Block, (iv.value : Int) = (v + o) % 2 ^ 128 →
    cs.decrypt_history iv.first = iv.second

theorem Follows.start (cs : Incoming) : Follows cs.decrypt_iv.value 0 [] cs where
  nonneg := le_rfl
  position := by
    have h := cs.decrypt_iv.value_lt
    omega
  bounded := by simp
  nodup := .nil
  history := by simp

/-- The IV of a packet that was sought. -/
theorem Follows.value (h : Follows v t accepted cs) (hat : s.At cs.decrypt_iv d) :
    (s.iv.value : Int) = (v + (t + d)) % 2 ^ 128 := by
  have hvalue := hat.value
  rw [h.position] at hvalue
  omega

/-- A packet that is the next one, or that the history does not know, was not accepted before. -/
theorem Follows.notMem (h : Follows v t accepted cs) (hat : s.At cs.decrypt_iv d)
    (hfresh : s.inOrder = true ∨ cs.decrypt_history s.iv.first ≠ s.iv.second) : t + d ∉ accepted := by
  intro hmem
  have hbound := h.bounded _ hmem
  have hwindow := hat.window
  obtain horder | hunknown := hfresh
  · rw [hat.inOrder, decide_eq_true_eq] at horder
    omega
  · exact hunknown (h.history _ hmem (by omega) _ (h.value hat))

theorem Follows.accept (h : Follows v t accepted cs) (hat : s.At cs.decrypt_iv d) (hnew : t + d ∉ accepted) :
    Follows v (max t (t + d)) ((t + d) :: accepted) (cs.accept s) := by
  have hnonneg := h.nonneg
  have hwindow := hat.window
  refine ⟨by omega, ?_, ?_, List.nodup_cons.mpr ⟨hnew, h.nodup⟩, ?_⟩
  · rw [Incoming.accept]
    by_cases hlate : d < 0
    · have htrue : s.late = true := by rw [hat.late, decide_eq_true_eq]; exact hlate
      rw [if_pos htrue, max_eq_left (by omega)]
      exact h.position
    · have hfalse : ¬ s.late = true := by rw [hat.late, decide_eq_true_eq]; exact hlate
      rw [if_neg hfalse, max_eq_right (by omega)]
      exact h.value hat
  · intro o ho
    obtain rfl | ho := List.mem_cons.mp ho
    · omega
    · have hbound := h.bounded o ho
      omega
  · intro o ho hrecent iv hiv
    have hs := h.value hat
    change Function.update cs.decrypt_history s.iv.first s.iv.second iv.first = iv.second
    by_cases hsame : iv.first = s.iv.first
    · have hbyte := congrArg BitVec.toNat hsame
      rw [Block.first_toNat, Block.first_toNat] at hbyte
      have hiv' : iv = s.iv := by
        apply Block.value_inj
        obtain rfl | ho := List.mem_cons.mp ho
        · omega
        · have hbound := h.bounded o ho
          have hoffset : o = t + d := by omega
          rw [hoffset] at hiv
          omega
      rw [hiv', Function.update_self]
    · rw [Function.update_of_ne hsame]
      obtain rfl | ho := List.mem_cons.mp ho
      · exact absurd (congrArg Block.first (Block.value_inj (by omega))) hsame
      · exact h.history o ho (by omega) iv hiv

theorem ofInt_emod (n : Int) : BitVec.ofInt 32 (n % 2 ^ 128) = BitVec.ofInt 32 n := by
  apply BitVec.eq_of_toNat_eq
  rw [BitVec.toNat_ofInt, BitVec.toNat_ofInt]
  omega

/-- What was heard and what was missed are together what the IV went past. -/
theorem good_add_lost_accept (hat : s.At cs.decrypt_iv d) :
    (cs.accept s).uiGood + (cs.accept s).uiLost - BitVec.ofNat 32 (cs.accept s).decrypt_iv.value =
      cs.uiGood + cs.uiLost - BitVec.ofNat 32 cs.decrypt_iv.value := by
  have hminus : BitVec.ofInt 32 (-1) = -1 := rfl
  simp only [accept, hat.late, hat.lost, decide_eq_true_eq]
  by_cases hlate : d < 0
  · rw [if_pos hlate, if_pos hlate, hminus]
    ring
  · have hvalue : BitVec.ofNat 32 s.iv.value = BitVec.ofNat 32 cs.decrypt_iv.value + BitVec.ofInt 32 d := by
      rw [← BitVec.ofInt_natCast, hat.value, ofInt_emod, BitVec.ofInt_add, BitVec.ofInt_natCast]
    rw [if_neg hlate, if_neg hlate, hvalue, Int.sub_eq_add_neg, BitVec.ofInt_add, hminus]
    ring

end Incoming

/-- What happens to a client's voice channel: packets arrive, whoever made them, and packets are sent. -/
inductive VoiceAction
  | decrypt (source : List Byte)
  | encrypt (source : List Byte)

/-- The server's side of it, and the IVs of the packets that it accepted, the last one first. -/
structure VoiceServer where
  cs : CryptState
  accepted : List Block

namespace VoiceServer

def step (w : VoiceServer) : VoiceAction → Option VoiceServer
  | .decrypt source =>
    match w.cs.decrypt source with
    | none => some w
    | some (_, cs) => some ⟨cs, ((seek w.cs.incoming.decrypt_iv (source.headD 0)).map (·.iv)).toList ++ w.accepted⟩
  | .encrypt source => some { w with cs := (w.cs.encrypt source).1 }

variable {w w' : VoiceServer} {a : VoiceAction} {acts : List VoiceAction} {v : Nat} {t : Int} {offsets : List Int}

/-- A step accepts one packet, or leaves the side that decrypts as it was. -/
theorem step_cases (h : w.step a = some w') :
    w'.cs.incoming = w.cs.incoming ∧ w'.accepted = w.accepted ∨
      ∃ s d, s.At w.cs.incoming.decrypt_iv d ∧
        (s.inOrder = true ∨ w.cs.incoming.decrypt_history s.iv.first ≠ s.iv.second) ∧
          w'.cs.incoming = w.cs.incoming.accept s ∧ w'.accepted = s.iv :: w.accepted := by
  cases a with
  | decrypt source =>
    rw [step] at h
    split at h
    · cases h
      exact .inl ⟨rfl, rfl⟩
    next plain cs hdecrypt =>
      cases h
      obtain ⟨⟨plain', incoming⟩, haccepted, hstate⟩ := Option.map_eq_some_iff.mp hdecrypt
      obtain ⟨s, hseek, hfresh, _, hincoming⟩ := Incoming.decrypt_cases haccepted
      obtain ⟨_, d, hat⟩ := seek_spec hseek
      cases hstate
      refine .inr ⟨s, d, hat, hfresh, hincoming, ?_⟩
      rw [hseek]
      rfl
  | encrypt source =>
    cases h
    exact .inl ⟨rfl, rfl⟩

/-- The IVs that were accepted are those of packets that the server is past, none twice. -/
structure Sound (v : Nat) (t : Int) (offsets : List Int) (w : VoiceServer) : Prop where
  follows : w.cs.incoming.Follows v t offsets
  accepted : w.accepted.map (fun iv => (iv.value : Int)) = offsets.map fun o : Int => (v + o) % 2 ^ 128

theorem Sound.step (h : Sound v t offsets w) (hstep : w.step a = some w') :
    ∃ t' offsets', t' ≤ t + 128 ∧ Sound v t' offsets' w' := by
  obtain ⟨hincoming, haccepted⟩ | ⟨s, d, hat, hfresh, hincoming, haccepted⟩ := step_cases hstep
  · exact ⟨t, offsets, by omega, hincoming ▸ h.follows, haccepted ▸ h.accepted⟩
  · have hwindow := hat.window
    refine ⟨max t (t + d), (t + d) :: offsets, by omega, ?_, ?_⟩
    · rw [hincoming]
      exact h.follows.accept hat (h.follows.notMem hat hfresh)
    · rw [haccepted, List.map_cons, List.map_cons, h.accepted, h.follows.value hat]

theorem Sound.run (h : Sound v t offsets w) (hrun : Transition.Run VoiceServer.step (fun _ _ => True) w acts w') :
    ∃ t' offsets', t' ≤ t + 128 * acts.length ∧ Sound v t' offsets' w' := by
  induction hrun generalizing t offsets with
  | nil => exact ⟨t, offsets, by simp, h⟩
  | cons _ hstep _ ih =>
    obtain ⟨t₁, offsets₁, hle, h₁⟩ := h.step hstep
    obtain ⟨t₂, offsets₂, hle₂, h₂⟩ := ih h₁
    refine ⟨t₂, offsets₂, ?_, h₂⟩
    rw [List.length_cons]
    push_cast
    omega

/-- Whatever packets arrive, in whatever order and however often, no two are accepted under one IV. The bound on the
steps keeps the 128 bits of the IV from coming round. -/
theorem accepted_nodup (hrun : Transition.Run step (fun _ _ => True) w acts w') (hstart : w.accepted = [])
    (hlength : acts.length ≤ 2 ^ 120) : w'.accepted.Nodup := by
  have hsound : Sound w.cs.incoming.decrypt_iv.value 0 [] w := by
    refine ⟨.start _, ?_⟩
    rw [hstart]
    rfl
  obtain ⟨t, offsets, hle, hend⟩ := hsound.run hrun
  have hoffsets : (offsets.map fun o : Int => (w.cs.incoming.decrypt_iv.value + o) % 2 ^ 128).Nodup := by
    refine List.Nodup.map_on (fun o ho o' ho' heq => ?_) hend.follows.nodup
    have hbound := hend.follows.bounded o ho
    have hbound' := hend.follows.bounded o' ho'
    omega
  rw [← hend.accepted] at hoffsets
  exact hoffsets.of_map _

/-- AES under the key with the bytes from 0 to 15, as far as the packet below needs it. -/
def sampleAes : Cipher :=
  (Equiv.swap (Block.load [10, 1, 0, 0, 0, 0, 0, 0, 0, 0, 0, 0, 0, 0, 0, 0])
    (Block.load [120, 196, 146, 31, 50, 121, 22, 228, 138, 200, 132, 132, 178, 29, 95, 167])).trans
  ((Equiv.swap (Block.load [241, 137, 36, 62, 100, 242, 45, 201, 21, 145, 9, 9, 100, 58, 191, 110])
    (Block.load [114, 107, 91, 203, 252, 172, 86, 233, 72, 4, 65, 113, 92, 171, 132, 115])).trans
  (Equiv.swap (Block.load [146, 154, 110, 65, 81, 186, 32, 178, 118, 183, 90, 106, 240, 228, 69, 38])
    (Block.load [251, 71, 175, 126, 118, 203, 219, 242, 205, 237, 244, 140, 84, 95, 90, 252])))

/-- A server whose last packet had an IV with this first byte. -/
def sampleServer (ivbyte : Byte) : VoiceServer :=
  ⟨⟨sampleAes, Block.ZERO, ⟨Block.load [ivbyte, 1], fun _ => 0, 0, 0, 0⟩⟩, []⟩

/-- A packet arrives twice. It is heard once. -/
theorem accepted_nodup_repeated : ∃ w, Transition.Run step (fun _ _ => True) (sampleServer 9)
    [.decrypt [10, 251, 71, 175, 242, 106, 89, 200], .decrypt [10, 251, 71, 175, 242, 106, 89, 200]] w ∧
      w.accepted.length = 1 ∧ w.accepted.Nodup := by
  have hexec : (Transition.exec step (sampleServer 9)
      [.decrypt [10, 251, 71, 175, 242, 106, 89, 200], .decrypt [10, 251, 71, 175, 242, 106, 89, 200]]).any
        (fun w => decide (w.accepted.length = 1)) = true := by decide +kernel
  obtain ⟨w, hrun, hlength⟩ := Transition.exists_run hexec
  exact ⟨w, hrun, of_decide_eq_true hlength, accepted_nodup hrun rfl (by simp)⟩

/-- The packets that the server counts as heard and as lost are those that the IV went past, late ones taken off the
losses. -/
theorem good_add_lost_of_run (hrun : Transition.Run step (fun _ _ => True) w acts w') :
    w'.cs.incoming.uiGood + w'.cs.incoming.uiLost - BitVec.ofNat 32 w'.cs.incoming.decrypt_iv.value =
      w.cs.incoming.uiGood + w.cs.incoming.uiLost - BitVec.ofNat 32 w.cs.incoming.decrypt_iv.value := by
  induction hrun with
  | nil => rfl
  | cons _ hstep _ ih =>
    rw [ih]
    obtain ⟨hincoming, _⟩ | ⟨s, d, hat, _, hincoming, _⟩ := step_cases hstep
    · rw [hincoming]
    · rw [hincoming, Incoming.good_add_lost_accept hat]

/-- Two packets are missed before one that is heard. -/
theorem good_add_lost_missed : ∃ w, Transition.Run step (fun _ _ => True) (sampleServer 7)
    [.decrypt [10, 251, 71, 175, 242, 106, 89, 200]] w ∧ w.cs.incoming.uiGood = 1 ∧
      w.cs.incoming.uiGood + w.cs.incoming.uiLost - BitVec.ofNat 32 w.cs.incoming.decrypt_iv.value = 0 + 0 - 263 := by
  have hexec : (Transition.exec step (sampleServer 7) [.decrypt [10, 251, 71, 175, 242, 106, 89, 200]]).any
      (fun w => decide (w.cs.incoming.uiGood = 1)) = true := by decide +kernel
  obtain ⟨w, hrun, hgood⟩ := Transition.exists_run hexec
  exact ⟨w, hrun, of_decide_eq_true hgood, good_add_lost_of_run hrun⟩

end VoiceServer

end mumble
