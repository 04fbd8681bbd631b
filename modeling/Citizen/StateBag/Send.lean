import Citizen.StateBag.Component
import Citizen.MessageBuffer.Stream

open Bits rl Std

namespace fx.StateBags

/-- The size of the buffer of `SendKey`. -/
def bufferSize : Nat := 131072

/-- A counted string as bytes: the length with the terminator, the string, the terminator. -/
def strBytes (str : Str) : List Byte :=
  [(BitVec.ofNat 16 (str.length + 1)).extractLsb' 8 8, (BitVec.ofNat 16 (str.length + 1)).extractLsb' 0 8]
    ++ str ++ [0]

/-- The packet for a value of a key. -/
def encode (id key value : Str) : List Byte := strBytes id ++ strBytes key ++ value

/-- The packet for a value fits the buffer. -/
def Fits (id key value : Str) : Prop := id.length + key.length + value.length + 6 ≤ bufferSize

@[simp] theorem length_strBytes (str : Str) : (strBytes str).length = str.length + 3 := by
  simp [strBytes]

theorem length_encode (id key value : Str) :
    (encode id key value).length = id.length + key.length + value.length + 6 := by
  simp [encode]
  omega

/-- Two bytes are one 16-bit number. -/
theorem bitsOf_word (v : BitVec 16) : bitsOf [v.extractLsb' 8 8, v.extractLsb' 0 8] = fieldBits 16 v := by
  rw [show ([v.extractLsb' 8 8, v.extractLsb' 0 8] : List Byte) = [v.extractLsb' 8 8] ++ [v.extractLsb' 0 8] from rfl,
    bitsOf_append, bitsOf_byte, bitsOf_byte]
  apply List.ext_getElem
  · simp
  · intro i h₁ h₂
    rw [length_fieldBits] at h₂
    rcases Nat.lt_or_ge i 8 with hi | hi
    · rw [List.getElem_append_left (by simpa using hi)]
      simp [fieldBits, BitVec.getLsbD_extractLsb',
        show 8 - 1 - i < 8 by omega, show 8 + (8 - 1 - i) = 16 - 1 - i by omega]
    · rw [List.getElem_append_right (by simpa using hi)]
      have hlow : 15 - i < 8 := by omega
      simp [fieldBits, BitVec.getLsbD_extractLsb', show 8 - 1 - (i - 8) = 16 - 1 - i by omega, hlow]

theorem bitsOf_strBytes (str : Str) :
    bitsOf (strBytes str) = fieldBits 16 (BitVec.ofNat 16 (str.length + 1)) ++ bitsOf str ++
      fieldBits 8 (0 : Byte) := by
  rw [strBytes, bitsOf_append, bitsOf_append, bitsOf_word, bitsOf_byte]

theorem writeStr_written {dataBuffer : MessageBuffer} {size : Nat} (bytes : List Byte) (str : Str)
    (h : dataBuffer.Written size (bitsOf bytes)) (hfit : bytes.length + str.length + 3 ≤ size) :
    ∃ after, writeStr dataBuffer str = some after ∧ after.Written size (bitsOf (bytes ++ strBytes str)) := by
  have hsmall := h.small
  have hlen : int32 (8 * str.length) = 8 * str.length := int32_eq (by omega) (by omega)
  obtain ⟨first, hfirst, hcount⟩ := h.write false
    ((BitVec.ofNat 16 (str.length + 1)).setWidth 32) (n := 16) (by simp) (by simp) (by simp; omega)
  obtain ⟨second, hsecond, hbody⟩ := hcount.writeBytes str (by simp; omega)
  obtain ⟨third, hthird, hdone⟩ := hbody.write false 0 (n := 8) (by simp) (by simp) (by simp; omega)
  refine ⟨third, ?_, ?_⟩
  · rw [writeStr, hfirst, Option.bind_eq_bind, Option.bind_some, hlen, hsecond]
    exact hthird
  · have hword : fieldBits 16 ((BitVec.ofNat 16 (str.length + 1)).setWidth 32) =
      fieldBits 16 (BitVec.ofNat 16 (str.length + 1)) := by
      refine fieldBits_congr fun i hi => ?_
      rw [BitVec.getLsbD_setWidth, decide_eq_true (by omega), Bool.true_and]
    have hzero : fieldBits 8 (0 : BitVec 32) = fieldBits 8 (0 : Byte) := fieldBits_congr fun i _ => by simp
    rw [MessageBuffer.hackLength_false, MessageBuffer.hackLength_false, hword, hzero] at hdone
    rw [bitsOf_append, bitsOf_strBytes]
    simpa only [List.append_assoc] using hdone

theorem writeStr_sized {dataBuffer after : MessageBuffer} {size : Nat} {str : Str} (h : dataBuffer.Sized size)
    (hwrite : writeStr dataBuffer str = some after) : after.Sized size := by
  obtain ⟨first, hfirst, hwrite⟩ := Option.bind_eq_some_iff.mp hwrite
  obtain ⟨⟨_, second⟩, hsecond, hwrite⟩ := Option.bind_eq_some_iff.mp hwrite
  exact ((h.write hfirst).writeBits hsecond).write hwrite

theorem exists_right_of_forall₂ {α β : Type*} {r : α → β → Prop} {as : List α} {bs : List β} (h : List.Forall₂ r as bs)
    {a : α} (ha : a ∈ as) : ∃ b ∈ bs, r a b := by
  induction h with
  | nil => cases ha
  | cons hfirst _ ih =>
    rcases List.mem_cons.mp ha with rfl | ha
    · exact ⟨_, List.mem_cons_self, hfirst⟩
    · obtain ⟨b, hb, hr⟩ := ih ha
      exact ⟨b, List.mem_cons_of_mem _ hb, hr⟩

theorem exists_left_of_forall₂ {α β : Type*} {r : α → β → Prop} {as : List α} {bs : List β} (h : List.Forall₂ r as bs)
    {b : β} (hb : b ∈ bs) : ∃ a ∈ as, r a b :=
  exists_right_of_forall₂ (r := flip r) h.flip hb

/-- `w'` is `w` after the sends `new`, which touch nothing but the buffer. -/
structure Sends (w w' : StateBags) (new : List QueuedSend) : Prop where
  eq : w' = { w with dataBuffer := w'.dataBuffer, sends := w.sends ++ new }
  sized : w.dataBuffer.Sized bufferSize → w'.dataBuffer.Sized bufferSize

/-- The send of a key of the bag `b` to a peer. -/
structure SendOf (w : StateBags) (bag : BagPtr) (b : StateBagImpl) (target : Int) (key : Str)
    (send : QueuedSend) : Prop where
  target_eq : send.target = target
  bag_eq : send.bag = bag
  key_eq : send.key = key
  routingTargets_eq : send.routingTargets = b.routingTargets
  targets_eq : send.targets = w.component.targets
  packet_eq : w.dataBuffer.Sized bufferSize → ∀ value, b.data[key]? = some value → Fits b.id key value →
    send.packet = encode b.id key value

namespace Sends

variable {w mid w' : StateBags} {new new' : List QueuedSend}

theorem refl (w : StateBags) : Sends w w [] := ⟨by rw [List.append_nil], id⟩

theorem trans (h : Sends w mid new) (h' : Sends mid w' new') : Sends w w' (new ++ new') where
  eq := by rw [h'.eq, h.eq, List.append_assoc]
  sized hsize := h'.sized (h.sized hsize)

theorem bags_eq (h : Sends w w' new) : w'.bags = w.bags := by rw [h.eq]

theorem component_eq (h : Sends w w' new) : w'.component = w.component := by rw [h.eq]

theorem sends_eq (h : Sends w w' new) : w'.sends = w.sends ++ new := by rw [h.eq]

end Sends

theorem SendOf.of_sends {w mid : StateBags} {new : List QueuedSend} {bag : BagPtr} {b : StateBagImpl} {target : Int}
    {key : Str} {send : QueuedSend} (hsends : Sends w mid new) (h : SendOf mid bag b target key send) :
    SendOf w bag b target key send :=
  ⟨h.target_eq, h.bag_eq, h.key_eq, h.routingTargets_eq, by rw [h.targets_eq, hsends.component_eq],
    fun hsize => h.packet_eq (hsends.sized hsize)⟩

private theorem packet_eq_encode {w : StateBags} {id key value : Str} (hsized : w.dataBuffer.Sized bufferSize)
    (hfits : Fits id key value) {first second third : MessageBuffer} {ok : Bool}
    (hfirst : writeStr (w.dataBuffer.setCurrentBit 0) id = some first) (hsecond : writeStr first key = some second)
    (hthird : second.writeBits value (int32 (8 * value.length)) = some (ok, third)) :
    third.data.take (third.getCurrentBit / 8) = encode id key value := by
  have hsmall := hsized.small
  have hlen : int32 (8 * value.length) = 8 * value.length := by
    unfold Fits at hfits
    exact int32_eq (by omega) (by omega)
  rw [Fits] at hfits
  obtain ⟨first', hfirst', hid⟩ := writeStr_written [] id hsized.written (by rw [List.length_nil]; omega)
  obtain rfl : first = first' := Option.some.inj (hfirst.symm.trans hfirst')
  obtain ⟨second', hsecond', hkey⟩ := writeStr_written _ key hid (by simp; omega)
  obtain rfl : second = second' := Option.some.inj (hsecond.symm.trans hsecond')
  obtain ⟨third', hthird', hvalue⟩ := hkey.writeBytes value (by simp; omega)
  rw [← hlen, hthird] at hthird'
  obtain ⟨_, rfl⟩ := Prod.mk.inj (Option.some.inj hthird')
  rw [← bitsOf_append] at hvalue
  have hbytes := hvalue.take_eq
  rw [hvalue.getCurrentBit, length_bitsOf, Nat.mul_div_cancel_left _ (by omega : 0 < 8)]
  exact hbytes

theorem sendKey_sends {w w' : StateBags} {bag : BagPtr} {b : StateBagImpl} {target : Int} {key : Str}
    (hb : w.bags[bag]? = some b) (h : w.sendKey bag target key = some w') :
    ∃ new, Sends w w' new ∧ (b.data[key]? = none → new = []) ∧
      (b.data[key]? ≠ none → ∃ send, new = [send] ∧ SendOf w bag b target key send) := by
  rw [sendKey, hb, Option.bind_eq_bind, Option.bind_some] at h
  cases hdata : b.data[key]? with
  | none =>
    rw [hdata] at h
    cases h
    exact ⟨[], ⟨by rw [List.append_nil], fun hsize => hsize.setCurrentBit 0⟩, fun _ => rfl, fun hne => absurd rfl hne⟩
  | some value =>
    rw [hdata] at h
    obtain ⟨first, hfirst, h⟩ := Option.bind_eq_some_iff.mp h
    obtain ⟨second, hsecond, h⟩ := Option.bind_eq_some_iff.mp h
    obtain ⟨⟨ok, third⟩, hthird, h⟩ := Option.bind_eq_some_iff.mp h
    cases h
    refine ⟨_, ⟨rfl, fun hsize => ?_⟩, nofun, fun _ => ⟨_, rfl, rfl, rfl, rfl, rfl, rfl, fun hsize v hv hfits => ?_⟩⟩
    · exact (writeStr_sized (writeStr_sized (hsize.setCurrentBit 0) hfirst) hsecond).writeBits hthird
    · cases hdata.symm.trans hv
      exact packet_eq_encode hsize hfits hfirst hsecond hthird

/-- A value that fits is sent. -/
theorem sendKey_of_fits {w : StateBags} {bag : BagPtr} {b : StateBagImpl} {key value : Str} (target : Int)
    (hb : w.bags[bag]? = some b) (hvalue : b.data[key]? = some value) (hsized : w.dataBuffer.Sized bufferSize)
    (hfits : Fits b.id key value) : ∃ w', w.sendKey bag target key = some w' := by
  have hsmall := hsized.small
  have hlen : int32 (8 * value.length) = 8 * value.length := by
    unfold Fits at hfits
    exact int32_eq (by omega) (by omega)
  rw [Fits] at hfits
  obtain ⟨first, hfirst, hid⟩ := writeStr_written [] b.id hsized.written (by rw [List.length_nil]; omega)
  obtain ⟨second, hsecond, hkey⟩ := writeStr_written _ key hid (by simp; omega)
  obtain ⟨third, hthird, _⟩ := hkey.writeBytes value (by simp; omega)
  rw [← hlen] at hthird
  rw [sendKey, hb, Option.bind_eq_bind, Option.bind_some, hvalue]
  dsimp only
  rw [hfirst, Option.bind_eq_bind, Option.bind_some, hsecond, Option.bind_eq_bind, Option.bind_some, hthird]
  exact ⟨_, rfl⟩

/-- Sends of keys that the bag has, one after the other. -/
theorem foldlM_sendKey {α : Type*} {w w' : StateBags} {bag : BagPtr} {b : StateBagImpl} (target : α → Int)
    (key : α → Str) {items : List α} (hb : w.bags[bag]? = some b) (hkeys : ∀ item ∈ items, b.data[key item]? ≠ none)
    (h : items.foldlM (fun w item => w.sendKey bag (target item) (key item)) w = some w') :
    ∃ new, Sends w w' new ∧
      List.Forall₂ (fun item send => SendOf w bag b (target item) (key item) send) items new := by
  induction items generalizing w with
  | nil =>
    cases h
    exact ⟨[], .refl _, .nil⟩
  | cons item items ih =>
    rw [List.foldlM_cons] at h
    obtain ⟨mid, hmid, hrest⟩ := Option.bind_eq_some_iff.mp h
    obtain ⟨first, hfirst, _, hsome⟩ := sendKey_sends hb hmid
    obtain ⟨send, rfl, hsend⟩ := hsome (hkeys item List.mem_cons_self)
    obtain ⟨new, hnew, hall⟩ := ih (by rw [hfirst.bags_eq, hb]) (fun i hi => hkeys i (List.mem_cons_of_mem _ hi)) hrest
    exact ⟨send :: new, hfirst.trans hnew, .cons hsend (hall.imp fun _ _ hs => hs.of_sends hfirst)⟩

theorem sendAll_sends {w w' : StateBags} {bag : BagPtr} {b : StateBagImpl} {target : Int}
    (hb : w.bags[bag]? = some b) (h : w.sendAll bag target = some w') :
    ∃ new, Sends w w' new ∧ List.Forall₂ (SendOf w bag b target) b.data.keys new := by
  rw [sendAll, hb, Option.bind_eq_bind, Option.bind_some] at h
  refine foldlM_sendKey (fun _ => target) id hb (fun key hkey => ?_) h
  rw [TreeMap.mem_keys, TreeMap.mem_iff_isSome_getElem?] at hkey
  exact Option.isSome_iff_ne_none.mp hkey

/-- The peers that a change of a value goes to. -/
def effectiveTargets (w : StateBags) (b : StateBagImpl) : TreeSet Int :=
  if b.routingTargets.isEmpty then w.component.targets else b.routingTargets

theorem sendKeyAll_sends {w w' : StateBags} {bag : BagPtr} {b : StateBagImpl} {key : Str}
    (hb : w.bags[bag]? = some b) (hkey : b.data[key]? ≠ none) (h : w.sendKeyAll bag key = some w') :
    ∃ new, Sends w w' new ∧
      List.Forall₂ (fun target send => SendOf w bag b target key send) (w.effectiveTargets b).toList new := by
  rw [sendKeyAll, hb, Option.bind_eq_bind, Option.bind_some] at h
  exact foldlM_sendKey id (fun _ => key) hb (fun _ _ => hkey) h

theorem sendKeyAll_of_fits {w : StateBags} {bag : BagPtr} {b : StateBagImpl} {key value : Str}
    (hb : w.bags[bag]? = some b) (hvalue : b.data[key]? = some value) (hsized : w.dataBuffer.Sized bufferSize)
    (hfits : Fits b.id key value) : ∃ w', w.sendKeyAll bag key = some w' := by
  have hloop : ∀ (targets : List Int) (s : StateBags), s.bags[bag]? = some b → s.dataBuffer.Sized bufferSize →
      ∃ s', targets.foldlM (fun w target => w.sendKey bag target key) s = some s' := by
    intro targets
    induction targets with
    | nil => exact fun s _ _ => ⟨s, rfl⟩
    | cons target targets ih =>
      intro s hs hsize
      obtain ⟨mid, hmid⟩ := sendKey_of_fits target hs hvalue hsize hfits
      obtain ⟨new, hnew, _⟩ := sendKey_sends hs hmid
      obtain ⟨s', hs'⟩ := ih mid (by rw [hnew.bags_eq, hs]) (hnew.sized hsize)
      exact ⟨s', by rw [List.foldlM_cons, hmid]; exact hs'⟩
  rw [sendKeyAll, hb, Option.bind_eq_bind, Option.bind_some]
  exact hloop _ w hb hsized

/-- A bag whose routing set leaves the target out sends nothing. -/
theorem sendAllInitial_sends {w w' : StateBags} {bag : BagPtr} {b : StateBagImpl} {target : Int}
    (hb : w.bags[bag]? = some b) (h : w.sendAllInitial bag target = some w') :
    ∃ new, Sends w w' new ∧
      if b.routingTargets.isEmpty ∨ target ∈ b.routingTargets then List.Forall₂ (SendOf w bag b target) b.data.keys new
      else new = [] := by
  rw [sendAllInitial, hb, Option.bind_eq_bind, Option.bind_some] at h
  by_cases hin : b.routingTargets.isEmpty ∨ target ∈ b.routingTargets
  · rw [if_neg (by tauto)] at h
    obtain ⟨new, hnew, hall⟩ := sendAll_sends hb h
    exact ⟨new, hnew, by rwa [if_pos hin]⟩
  · rw [if_pos (by tauto)] at h
    cases h
    exact ⟨[], .refl w, by rw [if_neg hin]⟩

/-- A new replicated value that fits goes to every peer the bag has. -/
theorem setKey_sends {w : StateBags} (call : SetKeyCall) {b : StateBagImpl} (hb : w.bags[call.bag]? = some b)
    (hreplicated : call.replicated = true) (hnew : call.data ≠ b.data.getD call.key [])
    (hsized : w.dataBuffer.Sized bufferSize) (hfits : Fits b.id call.key call.data) :
    ∃ w' new, w.setKey call .unhandled = some w' ∧ w'.sends = w.sends ++ new ∧
      List.Forall₂ (fun target send =>
        SendOf w call.bag { b with data := b.data.insert call.key call.data } target call.key send)
        (w.effectiveTargets b).toList new := by
  have hset : ({ w with setKeys := w.setKeys ++ [call] }.setBag call.bag
      { b with data := b.data.insert call.key call.data }).bags[call.bag]? =
      some { b with data := b.data.insert call.key call.data } := by
    rw [setBag, TreeMap.getElem?_insert_self]
  have hvalue : (b.data.insert call.key call.data)[call.key]? = some call.data := TreeMap.getElem?_insert_self
  obtain ⟨w', hw'⟩ := sendKeyAll_of_fits hset hvalue hsized hfits
  obtain ⟨new, hnew', hall⟩ := sendKeyAll_sends hset (by rw [hvalue]; exact Option.some_ne_none _) hw'
  refine ⟨w', new, ?_, hnew'.sends_eq, hall.imp fun _ _ h => ⟨h.target_eq, h.bag_eq, h.key_eq, h.routingTargets_eq,
    h.targets_eq, h.packet_eq⟩⟩
  rw [setKey, hb, Option.bind_eq_bind, Option.bind_some]
  dsimp only
  rw [setKeyInternal, hb, Option.bind_eq_bind, Option.bind_some]
  dsimp only
  rw [if_pos hreplicated, if_pos ⟨hreplicated, hnew⟩]
  exact hw'

end fx.StateBags
