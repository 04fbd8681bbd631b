import Citizen.StateBag.Send

open Bits rl Std

namespace fx.StateBags

/-- A string that its 16-bit counter can count, and that `HandlePacket` does not refuse. -/
structure Countable (str : Str) : Prop where
  ne_nil : str ≠ []
  length_le : str.length ≤ 65534

theorem readStr_unread {buffer : MessageBuffer} {limit : Nat} {str : Str} {rest : List Bool} (hstr : Countable str)
    (h : buffer.Unread limit (bitsOf (strBytes str) ++ rest)) :
    ∃ after, readStr buffer = some (str, after) ∧ after.Unread limit rest := by
  have hle := hstr.length_le
  have hpos := List.length_pos_of_ne_nil hstr.ne_nil
  rw [bitsOf_strBytes, List.append_assoc, List.append_assoc] at h
  obtain ⟨first, hfirst, hbody⟩ := MessageBuffer.Unread.read false (n := 16) (by simp) (by simp) h
  have hcount : (BitVec.ofNat 16 (str.length + 1)).toNat % 2 ^ MessageBuffer.hackLength false 16 = str.length + 1 := by
    rw [MessageBuffer.hackLength_false, BitVec.toNat_ofNat]
    omega
  rw [hcount] at hfirst
  have hlength : (BitVec.ofNat 32 (str.length + 1)).toNat = str.length + 1 := by
    rw [BitVec.toNat_ofNat]
    omega
  obtain ⟨second, hsecond, hterminator⟩ := hbody.readBytes false (List.replicate str.length 0)
    (MessageBuffer.hackLength_false _) List.length_replicate
  obtain ⟨third, hthird, hrest⟩ := hterminator.read false (n := 8) (by simp) (by simp)
  refine ⟨third, ?_, hrest⟩
  rw [readStr, hfirst]
  dsimp only
  rw [hlength, if_neg (Nat.succ_ne_zero _), Nat.add_sub_cancel, hsecond, Option.bind_eq_bind, Option.bind_some, hthird]

/-- `HandlePacket` finds in an encoded packet what was encoded. -/
theorem parsePacket_encode {id key value : Str} (hid : Countable id) (hkey : Countable key) (hvalue : value ≠ [])
    (hfits : Fits id key value) : parsePacket (encode id key value) = some (some (id, key, value)) := by
  have hpos := List.length_pos_of_ne_nil hvalue
  have hlen := length_encode id key value
  rw [Fits, bufferSize] at hfits
  have hstart := MessageBuffer.unread_ofBytes (encode id key value) (by omega)
  have hbits : bitsOf (encode id key value) = bitsOf (strBytes id) ++ (bitsOf (strBytes key) ++ bitsOf value) := by
    rw [encode, bitsOf_append, bitsOf_append, List.append_assoc]
  rw [hbits] at hstart
  generalize encode id key value = dataRaw at *
  obtain ⟨first, hfirst, hkeyRest⟩ := readStr_unread hid hstart
  obtain ⟨second, hsecond, hvalueRest⟩ := readStr_unread hkey hkeyRest
  have hcurrent := hvalueRest.getCurrentBit
  rw [← List.append_nil (bitsOf value)] at hvalueRest
  obtain ⟨third, hthird, _⟩ := hvalueRest.readBytes false (List.replicate value.length 0)
    (MessageBuffer.hackLength_false _) List.length_replicate
  have hleft : dataRaw.length * 8 - second.getCurrentBit = 8 * value.length := by
    rw [hcurrent, length_bitsOf]
    omega
  have hint : int32 ((8 * value.length : Nat) : Int) = 8 * value.length := by
    push_cast
    exact int32_eq (by omega) (by omega)
  rw [parsePacket, hfirst, Option.bind_eq_bind, Option.bind_some]
  dsimp only
  rw [if_neg hid.ne_nil, hsecond, Option.bind_eq_bind, Option.bind_some]
  dsimp only
  rw [if_neg hkey.ne_nil, hleft, if_neg (by omega), Nat.mul_div_cancel_left _ (by omega : 0 < 8), hint, hthird]
  rfl

/-- What `HandlePacket` does at `r` with a packet for a key of the bag `id`: the one
`SetKey` it leads to, if any. -/
structure Delivered (r : StateBags) (source : Int) (id key value : Str) (packet : List Byte)
    (change : StateBagChange) :
    Prop where
  known : ∀ (bag : BagPtr) (b : StateBagImpl), r.getStateBag id = some bag → r.bags[bag]? = some b →
    b.owningPeer = none ∨ b.owningPeer = some source →
    r.handlePacket source packet change = r.setKey ⟨bag, source, key, value, r.component.role = .server⟩ change
  owned : ∀ (bag : BagPtr) (b : StateBagImpl) (peer : Int), r.getStateBag id = some bag → r.bags[bag]? = some b →
    b.owningPeer = some peer → peer ≠ source → r.handlePacket source packet change = some r
  safe : r.getStateBag id = none → r.isSafePreCreateName id = true →
    r.handlePacket source packet change = (r.preCreateStateBag id).2.setKey
      ⟨(r.preCreateStateBag id).1, source, key, value, r.component.role = .server⟩ change
  unknown : r.getStateBag id = none → r.isSafePreCreateName id = false → r.handlePacket source packet change = some r

/-- A pre-created bag is new, and nobody owns it. -/
theorem preCreateStateBag_unowned {r : StateBags} {id : Str} (hget : r.getStateBag id = none) :
    (r.preCreateStateBag id).2.bags[(r.preCreateStateBag id).1]? = some { id } ∧
      (r.preCreateStateBag id).2.component.role = r.component.role := by
  rw [preCreateStateBag, registerStateBag, hget]
  exact ⟨TreeMap.getElem?_insert_self, rfl⟩

theorem handlePacket_delivered (r : StateBags) (source : Int) {id key value : Str} {packet : List Byte}
    (change : StateBagChange) (hparse : parsePacket packet = some (some (id, key, value))) :
    Delivered r source id key value packet change := by
  refine ⟨fun bag b hget hb howner => ?_, fun bag b peer hget hb howner hne => ?_, fun hget hsafe => ?_,
    fun hget hsafe => ?_⟩
  · rw [handlePacket, hparse, Option.bind_eq_bind, Option.bind_some]
    dsimp only
    rw [findBag, hget]
    dsimp only
    rw [hb, Option.bind_eq_bind, Option.bind_some, if_neg]
    rcases howner with howner | howner <;> simp [howner]
  · rw [handlePacket, hparse, Option.bind_eq_bind, Option.bind_some]
    dsimp only
    rw [findBag, hget]
    dsimp only
    rw [hb, Option.bind_eq_bind, Option.bind_some, if_pos]
    simp [howner, hne]
  · obtain ⟨hb, hrole⟩ := preCreateStateBag_unowned hget
    rw [handlePacket, hparse, Option.bind_eq_bind, Option.bind_some]
    dsimp only
    rw [findBag, hget]
    dsimp only
    rw [if_pos hsafe]
    dsimp only
    rw [hb, Option.bind_eq_bind, Option.bind_some, if_neg (by simp), hrole]
  · rw [handlePacket, hparse, Option.bind_eq_bind, Option.bind_some]
    dsimp only
    rw [findBag, hget]
    dsimp only
    rw [if_neg (by simp [hsafe])]

theorem sendKey_encode {w : StateBags} {bag : BagPtr} {b : StateBagImpl} {key value : Str} (target : Int)
    (hb : w.bags[bag]? = some b) (hstored : b.data[key]? = some value) (hsized : w.dataBuffer.Sized bufferSize)
    (hfits : Fits b.id key value) :
    ∃ w' send, w.sendKey bag target key = some w' ∧ w'.sends = w.sends ++ [send] ∧ send.target = target ∧
      send.packet = encode b.id key value := by
  obtain ⟨w', hw'⟩ := sendKey_of_fits target hb hstored hsized hfits
  obtain ⟨new, hnew, _, hsome⟩ := sendKey_sends hb hw'
  obtain ⟨send, rfl, hsend⟩ := hsome (by rw [hstored]; exact Option.some_ne_none _)
  exact ⟨w', send, hw', hnew.sends_eq, hsend.target_eq, hsend.packet_eq hsized value hstored hfits⟩

/-- A stored value that fits a packet reaches `SetKey` of every receiver unchanged,
whatever the buffer of the sender held. -/
theorem packet_roundTrip {w : StateBags} {bag : BagPtr} {b : StateBagImpl} {key value : Str} (target : Int)
    (hb : w.bags[bag]? = some b) (hstored : b.data[key]? = some value) (hsized : w.dataBuffer.Sized bufferSize)
    (hid : Countable b.id) (hkey : Countable key) (hvalue : value ≠ []) (hfits : Fits b.id key value) :
    ∃ w' send, w.sendKey bag target key = some w' ∧ w'.sends = w.sends ++ [send] ∧ send.target = target ∧
      ∀ (r : StateBags) (source : Int) (change : StateBagChange),
        Delivered r source b.id key value send.packet change := by
  obtain ⟨w', send, hw', hsends, htarget, hpacket⟩ := sendKey_encode target hb hstored hsized hfits
  refine ⟨w', send, hw', hsends, htarget, fun r source change => handlePacket_delivered r source change ?_⟩
  rw [hpacket]
  exact parsePacket_encode hid hkey hvalue hfits

/-- A component with one bag that holds one value. -/
def oneBag (id key value : Str) : StateBags :=
  { create .server with
    bags := (∅ : TreeMap BagPtr StateBagImpl).insert 0 { id, data := (∅ : TreeMap Str Str).insert key value } }

theorem oneBag_stored (id key value : Str) :
    (oneBag id key value).bags[(0 : BagPtr)]? = some { id, data := (∅ : TreeMap Str Str).insert key value } ∧
      ((∅ : TreeMap Str Str).insert key value)[key]? = some value ∧
        (oneBag id key value).dataBuffer.Sized bufferSize :=
  ⟨TreeMap.getElem?_insert_self, TreeMap.getElem?_insert_self, (MessageBuffer.ofSize_written (by decide)).sized⟩

private theorem fits_bytes : Fits [112] [107] [118] := by
  unfold Fits bufferSize
  decide

theorem packet_roundTrip_oneBag : ∃ w' send, (oneBag [112] [107] [118]).sendKey 0 5 [107] = some w' ∧
    w'.sends = [] ++ [send] ∧ send.target = 5 ∧
      ∀ (r : StateBags) (source : Int) (change : StateBagChange), Delivered r source [112] [107]
        [118] send.packet change := by
  obtain ⟨hb, hstored, hsized⟩ := oneBag_stored [112] [107] [118]
  exact packet_roundTrip 5 hb hstored hsized ⟨by decide, by decide⟩ ⟨by decide, by decide⟩ (by decide) fits_bytes

/-- A receiver that does not know the bag creates it, where the name is safe, and sets
the value there. -/
theorem packet_preCreated : ∃ (r r' w' : StateBags) (send : QueuedSend),
    (oneBag [112] [107] [118]).sendKey 0 5 [107] = some w' ∧ w'.sends = [] ++ [send] ∧ r.getStateBag [112] = none ∧
      r.handlePacket 5 send.packet .refused = some r' ∧ r'.setKeys = [⟨0, 5, [107], [118], true⟩] := by
  obtain ⟨hb, hstored, hsized⟩ := oneBag_stored [112] [107] [118]
  obtain ⟨w', send, hw', hsends, _, hpacket⟩ := sendKey_encode 5 hb hstored hsized fits_bytes
  have hparse : parsePacket send.packet = some (some ([112], [107], [118])) := by
    rw [hpacket]
    exact parsePacket_encode ⟨by decide, by decide⟩ ⟨by decide, by decide⟩ (by decide) fits_bytes
  exact ⟨(create .server).addSafePreCreatePrefix [112], _, w', send, hw', hsends, rfl,
    (handlePacket_delivered _ 5 .refused hparse).safe rfl (by decide +kernel), rfl⟩

end fx.StateBags
