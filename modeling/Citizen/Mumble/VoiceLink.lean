import Citizen.Mumble.Replay
import Mathlib.Data.List.Dedup

open Bits

namespace mumble

/-- A packet that was sent: its IV, what it says, and what is on the wire. -/
structure Sent where
  iv : Block
  plain : List Byte
  packet : List Byte

/-- What the sender and the receiver hold, the packets sent so far, and what the receiver heard, the last packet
first. The network loses, repeats and reorders packets. -/
structure Link where
  encrypt_iv : Block
  incoming : Incoming
  sent : List Sent
  received : List (Nat × List Byte)

inductive LinkAction
  | send (plain : List Byte)
  | deliver (n : Nat)

namespace LinkAction

/-- The packet that an action delivers. -/
def delivered? : LinkAction → Option Nat
  | .send _ => none
  | .deliver n => some n

end LinkAction

namespace Link

/-- A packet may be delivered at any time after it was sent, and more than once. -/
def step (cipher : Cipher) (l : Link) : LinkAction → Option Link
  | .send plain =>
    let (encrypt_iv, packet) := encrypt cipher l.encrypt_iv plain
    some { l with encrypt_iv, sent := l.sent ++ [⟨encrypt_iv, plain, packet⟩] }
  | .deliver n => l.sent[n]?.bind fun sent =>
    match l.incoming.decrypt cipher sent.packet with
    | none => some l
    | some (plain, incoming) => some { l with incoming, received := (n, plain) :: l.received }

/-- One more than the highest number that was received. -/
def reached (l : Link) : Nat := (l.received.map fun r => r.1 + 1).foldr max 0

/-- The packet is at most 29 behind the highest one that was received, and at most 127 ahead of it. -/
def InWindow (l : Link) (n : Nat) : Prop := l.reached < n + 31 ∧ n < l.reached + 127

instance (l : Link) (n : Nat) : Decidable (l.InWindow n) := inferInstanceAs (Decidable (_ ∧ _))

/-- The history does not take the packet for one that it is not: it is the next one, or was received, or has no
entry. -/
def NotMistaken (l : Link) (n : Nat) : Prop :=
  n = l.reached ∨ n ∈ l.received.map Prod.fst ∨
    ∀ sent, l.sent[n]? = some sent → l.incoming.decrypt_history sent.iv.first ≠ sent.iv.second

/-- What the network is asked for. -/
def Allowed (l : Link) : LinkAction → Prop
  | .send _ => True
  | .deliver n => l.InWindow n ∧ l.NotMistaken n

variable {cipher : Cipher} {l l' : Link} {a : LinkAction} {acts : List LinkAction} {v n : Nat} {s : Sent}

theorem step_refused (hsent : l.sent[n]? = some s) (hdecrypt : l.incoming.decrypt cipher s.packet = none) :
    l.step cipher (.deliver n) = some l := by
  rw [step, hsent, Option.bind_some, hdecrypt]

theorem step_heard (hsent : l.sent[n]? = some s) {r : List Byte × Incoming}
    (hdecrypt : l.incoming.decrypt cipher s.packet = some r) :
    l.step cipher (.deliver n) = some { l with incoming := r.2, received := (n, r.1) :: l.received } := by
  rw [step, hsent, Option.bind_some, hdecrypt]

/-- What is on the wire for bytes that are sent under an IV. -/
def packet (cipher : Cipher) (iv : Block) (plain : List Byte) : List Byte :=
  iv.first :: (ocb_encrypt cipher plain iv).2.bytes.take 3 ++ (ocb_encrypt cipher plain iv).1

/-- A packet that is sought under its IV, and that the history does not know, is decrypted. -/
theorem decrypt_packet {cs : Incoming} {iv : Block} {plain : List Byte} {found : Sought}
    (hseek : seek cs.decrypt_iv iv.first = some found) (hiv : found.iv = iv)
    (hfresh : found.inOrder = true ∨ cs.decrypt_history iv.first ≠ iv.second) :
    cs.decrypt cipher (packet cipher iv plain) = some (plain, cs.accept found) := by
  obtain ⟨_, hround⟩ := ocb_roundTrip cipher plain iv
  have htag : ((ocb_encrypt cipher plain iv).2.bytes.take 3).length = 3 := by
    rw [List.length_take, Block.length_bytes]
    omega
  have hlength : ¬ (packet cipher iv plain).length < 4 := by
    rw [packet, List.length_append, List.length_cons, htag]
    omega
  have hdrop : (packet cipher iv plain).drop 4 = (ocb_encrypt cipher plain iv).1 := by
    apply List.drop_left'
    rw [List.length_cons, htag]
  have htake : ((packet cipher iv plain).drop 1).take 3 = (ocb_encrypt cipher plain iv).2.bytes.take 3 :=
    List.take_left' htag
  have hknown : ¬ (found.inOrder = false ∧ cs.decrypt_history found.iv.first = found.iv.second) := by
    rintro ⟨horder, heq⟩
    rw [hiv] at heq
    obtain horder' | hne := hfresh
    · rw [horder] at horder'
      cases horder'
    · exact hne heq
  rw [Incoming.decrypt, if_neg hlength]
  change ((seek cs.decrypt_iv iv.first).bind _) = _
  rw [hseek, Option.bind_some, if_neg hknown, hdrop, hiv, hround, htake]
  exact if_pos rfl

/-- The packets were sent under the IVs behind `v`, and what was received is what they say. -/
structure Sound (cipher : Cipher) (v : Nat) (l : Link) : Prop where
  encrypt_iv : l.encrypt_iv.value = (v + l.sent.length) % 2 ^ 128
  sent : ∀ n s, l.sent[n]? = some s → s.iv.value = (v + (n + 1)) % 2 ^ 128 ∧ s.packet = packet cipher s.iv s.plain
  follows : l.incoming.Follows v l.reached (l.received.map fun r => (r.1 : Int) + 1)
  received : ∀ r ∈ l.received, ∃ s, l.sent[r.1]? = some s ∧ s.plain = r.2

namespace Sound

theorem mem_offsets : (n : Int) + 1 ∈ l.received.map (fun r => (r.1 : Int) + 1) ↔ n ∈ l.received.map Prod.fst := by
  simp only [List.mem_map]
  constructor
  · rintro ⟨r, hr, heq⟩
    exact ⟨r, hr, by omega⟩
  · rintro ⟨r, hr, rfl⟩
    exact ⟨r, hr, rfl⟩

theorem mem_of_foldr {received : List (Nat × List Byte)} (h : (received.map fun r => r.1 + 1).foldr max 0 = n + 1) :
    n ∈ received.map Prod.fst := by
  induction received with
  | nil => cases h
  | cons r rest ih =>
    rw [List.map_cons, List.foldr_cons] at h
    rw [List.map_cons, List.mem_cons]
    obtain hle | hle := Nat.le_total (r.1 + 1) ((rest.map fun r => r.1 + 1).foldr max 0)
    · rw [max_eq_right hle] at h
      exact .inr (ih h)
    · rw [max_eq_left hle] at h
      exact .inl (Nat.succ.inj h).symm

/-- A packet that was received is refused when it comes again. -/
theorem refuse (h : Sound cipher v l) (hsent : l.sent[n]? = some s) (hwindow : l.InWindow n)
    (hreceived : n ∈ l.received.map Prod.fst) : l.incoming.decrypt cipher s.packet = none := by
  obtain ⟨hiv, hpacket⟩ := h.sent n s hsent
  apply Option.eq_none_iff_forall_ne_some.mpr
  rintro ⟨plain, cs⟩ hdecrypt
  obtain ⟨found, hseek, hfresh, _⟩ := Incoming.decrypt_cases hdecrypt
  obtain ⟨hfirst, d, hat⟩ := seek_spec hseek
  have hnotMem := h.follows.notMem hat hfresh
  have hvalue := h.follows.value hat
  have hbyte := congrArg BitVec.toNat hfirst
  rw [hpacket] at hbyte
  change found.iv.first.toNat = s.iv.first.toNat at hbyte
  rw [Block.first_toNat, Block.first_toNat] at hbyte
  have hrange := hat.window
  obtain ⟨hlow, hhigh⟩ := hwindow
  have hoffset : l.reached + d = (n : Int) + 1 := by omega
  exact hnotMem (hoffset ▸ mem_offsets.mpr hreceived)

/-- The first time that a packet comes it is heard, and its number is the offset of its IV. -/
theorem hear (h : Sound cipher v l) (hsent : l.sent[n]? = some s) (hwindow : l.InWindow n)
    (hnew : n ∉ l.received.map Prod.fst) (hknown : l.NotMistaken n) : ∃ found,
      found.At l.incoming.decrypt_iv ((n : Int) + 1 - l.reached) ∧
        l.incoming.decrypt cipher s.packet = some (s.plain, l.incoming.accept found) := by
  obtain ⟨hiv, hpacket⟩ := h.sent n s hsent
  obtain ⟨hlow, hhigh⟩ := hwindow
  have hposition := h.follows.position
  have hne : n + 1 ≠ l.reached := fun heq => hnew (mem_of_foldr heq.symm)
  have hvalue : (s.iv.value : Int) = (l.incoming.decrypt_iv.value + ((n : Int) + 1 - l.reached)) % 2 ^ 128 := by omega
  obtain ⟨found, hseek, hfound, hat⟩ := seek_of_window s.iv (by omega) hvalue
  refine ⟨found, hat, ?_⟩
  rw [hpacket]
  apply decrypt_packet hseek hfound
  obtain hnext | hmem | hunknown := hknown
  · left
    rw [hat.inOrder, decide_eq_true_eq]
    omega
  · exact absurd hmem hnew
  · exact .inr (hunknown s hsent)

theorem start (cs : Incoming) : Sound cipher cs.decrypt_iv.value ⟨cs.decrypt_iv, cs, [], []⟩ where
  encrypt_iv := (Nat.mod_eq_of_lt cs.decrypt_iv.value_lt).symm
  sent := by simp
  follows := .start cs
  received := by simp

theorem send (h : Sound cipher v l) (plain : List Byte) (hstep : l.step cipher (.send plain) = some l') :
    Sound cipher v l' := by
  cases hstep
  have hiv : l.encrypt_iv.increase.value = (v + (l.sent.length + 1)) % 2 ^ 128 := by
    rw [Block.value_increase, h.encrypt_iv]
    omega
  refine ⟨?_, ?_, h.follows, ?_⟩
  · rw [List.length_append]
    exact hiv
  · intro n s hs
    rw [List.getElem?_append] at hs
    split at hs
    · exact h.sent n s hs
    next hlen =>
      obtain ⟨hn, hs⟩ := List.getElem?_eq_some_iff.mp hs
      have hlast : n = l.sent.length := by
        rw [List.length_singleton] at hn
        omega
      rw [List.getElem_singleton] at hs
      rw [← hs, hlast]
      exact ⟨hiv, rfl⟩
  · intro r hr
    obtain ⟨s, hs, hplain⟩ := h.received r hr
    exact ⟨s, List.getElem?_append_left (List.getElem?_eq_some_iff.mp hs).1 ▸ hs, hplain⟩

/-- What a delivery does, and that it keeps the link sound. -/
theorem deliver (h : Sound cipher v l) (hok : l.Allowed (.deliver n)) (hstep : l.step cipher (.deliver n) = some l') :
    Sound cipher v l' ∧
      l'.received.map Prod.fst = if n ∈ l.received.map Prod.fst then l.received.map Prod.fst
        else n :: l.received.map Prod.fst := by
  obtain ⟨hwindow, hknown⟩ := hok
  obtain ⟨s, hsent, _⟩ := Option.bind_eq_some_iff.mp hstep
  by_cases hreceived : n ∈ l.received.map Prod.fst
  · rw [step_refused hsent (h.refuse hsent hwindow hreceived)] at hstep
    cases hstep
    exact ⟨h, (if_pos hreceived).symm⟩
  · obtain ⟨found, hat, hdecrypt⟩ := h.hear hsent hwindow hreceived hknown
    rw [step_heard hsent hdecrypt] at hstep
    cases hstep
    refine ⟨⟨h.encrypt_iv, h.sent, ?_, ?_⟩, (if_neg hreceived).symm⟩
    · have hoffset : (l.reached : Int) + ((n : Int) + 1 - l.reached) = n + 1 := by omega
      have hnew : (l.reached : Int) + ((n : Int) + 1 - l.reached) ∉ l.received.map (fun r => (r.1 : Int) + 1) := by
        rw [hoffset]
        exact fun hmem => hreceived (mem_offsets.mp hmem)
      have hfollows := h.follows.accept hat hnew
      have hreached : max (l.reached : Int) (n + 1) = (max (n + 1) l.reached : Nat) := by
        rw [max_comm, Nat.cast_max]
        rfl
      rw [hoffset, hreached] at hfollows
      exact hfollows
    · intro r hr
      obtain rfl | hr := List.mem_cons.mp hr
      · exact ⟨s, hsent, rfl⟩
      · exact h.received r hr

end Sound

/-- The packets that are delivered, in order. -/
def delivered (acts : List LinkAction) : List Nat := acts.filterMap LinkAction.delivered?

theorem Sound.run (h : Sound cipher v l) (before : List Nat) (hbefore : l.received.map Prod.fst = before.dedup)
    (hrun : Transition.Run (step cipher) Allowed l acts l') :
    Sound cipher v l' ∧ l'.received.map Prod.fst = ((delivered acts).reverse ++ before).dedup := by
  induction hrun generalizing before with
  | nil => exact ⟨h, hbefore⟩
  | @cons l l₁ l' a acts hok hstep _ ih =>
    cases a with
    | send plain =>
      have hreceived : l₁.received = l.received := by
        cases hstep
        rfl
      exact ih (h.send plain hstep) before (hreceived ▸ hbefore)
    | deliver n =>
      obtain ⟨hsound, hreceived⟩ := h.deliver hok hstep
      have hnow : l₁.received.map Prod.fst = (n :: before).dedup := by
        rw [hreceived, hbefore]
        by_cases hmem : n ∈ before
        · rw [if_pos (List.mem_dedup.mpr hmem), List.dedup_cons_of_mem hmem]
        · rw [if_neg fun h => hmem (List.mem_dedup.mp h), List.dedup_cons_of_notMem hmem]
      obtain ⟨hend, hfinal⟩ := ih hsound (n :: before) hnow
      refine ⟨hend, hfinal.trans ?_⟩
      have hacts : delivered (.deliver n :: acts) = n :: delivered acts := rfl
      rw [hacts, List.reverse_cons, List.append_assoc, List.singleton_append]

end Link

end mumble
