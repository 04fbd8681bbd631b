import Citizen.StateBag.Packet

open Bits rl Std

namespace fx.StateBags

/-- The 16-bit number in front. -/
def announced : List Byte → Option Nat
  | a :: b :: _ => some (a ++ b : BitVec 16).toNat
  | _ => none

/-- What `readStr` makes of the bytes that are left: the string and what is left after it. A string that is not there
is made of zeros, and only the byte for its terminator is skipped. -/
def field (rest : List Byte) : Str × List Byte :=
  match announced rest with
  | none => ([], [])
  | some length =>
    if length = 0 then ([], rest.drop 2)
    else if length + 1 ≤ rest.length then ((rest.drop 2).take (length - 1), rest.drop (length + 2))
    else (List.replicate (length - 1) 0, rest.drop 3)

/-- The id, the key and the data that are found in a packet. -/
def fields (dataRaw : List Byte) : Option (Str × Str × Str) :=
  let (idNameBuffer, rest) := field dataRaw
  if idNameBuffer = [] then none
  else
    let (keyBuffer, rest) := field rest
    if keyBuffer = [] then none
    else if rest = [] then none else some (idNameBuffer, keyBuffer, rest)

/-- The packet is the counted id, the counted key and the data, each string with a byte after it. -/
structure Exactly (dataRaw : List Byte) (id key data : Str) : Prop where
  split : ∃ first second : Byte, ∃ a b c d : Byte, dataRaw = a :: b :: id ++ first :: c :: d :: key ++ second :: data ∧
    (a ++ b : BitVec 16).toNat = id.length + 1 ∧ (c ++ d : BitVec 16).toNat = key.length + 1
  id_ne_nil : id ≠ []
  key_ne_nil : key ≠ []
  data_ne_nil : data ≠ []

/-- A length in the packet runs past its end: that of the id, or that of the key behind it. -/
def RunsPast (dataRaw : List Byte) : Prop :=
  ∃ length, announced dataRaw = some length ∧ (dataRaw.length < length + 2 ∨
    ∃ length', announced (dataRaw.drop (length + 2)) = some length' ∧ dataRaw.length < length + 2 + length' + 2)

section Reading

variable {limit : Nat}

/-- The cursor of `buffer` has the bytes `rest` before it, or is past the end. -/
def Left (buffer : MessageBuffer) (limit : Nat) (rest : List Byte) : Prop :=
  buffer.Unread limit (bitsOf rest) ∨
    (rest = [] ∧ buffer.maxBit = limit ∧ ∃ pos : Nat, buffer.curBit = pos ∧ limit < pos ∧ pos ≤ limit + 16)

theorem bitsOf_two (a b : Byte) (rest : List Byte) :
    bitsOf (a :: b :: rest) = fieldBits 16 (a ++ b : BitVec 16) ++ bitsOf rest := by
  have hsplit : (a :: b :: rest : List Byte) =
      [(a ++ b : BitVec 16).extractLsb' 8 8, (a ++ b : BitVec 16).extractLsb' 0 8] ++ rest := by
    have hhigh : (a ++ b : BitVec 16).extractLsb' 8 8 = a := by
      apply BitVec.eq_of_getLsbD_eq
      intro i hi
      rw [BitVec.getLsbD_extractLsb', decide_eq_true hi, Bool.true_and]
      refine BitVec.getLsbD_append.trans ?_
      rw [if_neg (by omega), Nat.add_sub_cancel_left]
    have hlow : (a ++ b : BitVec 16).extractLsb' 0 8 = b := by
      apply BitVec.eq_of_getLsbD_eq
      intro i hi
      rw [BitVec.getLsbD_extractLsb', decide_eq_true hi, Bool.true_and, Nat.zero_add]
      refine BitVec.getLsbD_append.trans ?_
      rw [if_pos hi]
    rw [hhigh, hlow]
    rfl
  rw [hsplit, bitsOf_append, bitsOf_word]

theorem bitsOf_cons (a : Byte) (rest : List Byte) : bitsOf (a :: rest) = fieldBits 8 a ++ bitsOf rest := by
  rw [show a :: rest = [a] ++ rest from rfl, bitsOf_append, bitsOf_byte]

/-- The byte after a string is skipped, if it is there. -/
theorem read_byte {buffer : MessageBuffer} {rest : List Byte} (h : buffer.Unread limit (bitsOf rest))
    (hsmall : limit + 2 ^ 20 < 2 ^ 31) : Left (buffer.read false 8).2.2 limit (rest.drop 1) := by
  cases rest with
  | nil =>
    have hcur := h.curBit_nat
    have hmax := h.maxBit_eq
    rw [bitsOf_nil, List.length_nil, Nat.sub_zero] at hcur
    rw [MessageBuffer.read, MessageBuffer.readBitsSingle_short hcur (by simp; omega) (by simp; omega)]
    exact .inr ⟨rfl, hmax, limit + 8, by simp, by omega, by omega⟩
  | cons a rest =>
    rw [bitsOf_cons] at h
    obtain ⟨after, hread, hrest⟩ := MessageBuffer.Unread.read false (n := 8) (by simp) (by simp) h
    rw [hread]
    exact .inl hrest

theorem announced_lt {rest : List Byte} {length : Nat} (h : announced rest = some length) : length < 2 ^ 16 := by
  unfold announced at h
  split at h
  · cases h
    exact BitVec.isLt _
  · cases h

theorem announced_eq_none {rest : List Byte} (h : announced rest = none) : rest.length ≤ 1 := by
  unfold announced at h
  split at h
  · cases h
  · rename_i hshort
    match rest, hshort with
    | [], _ => exact Nat.zero_le _
    | [_], _ => exact le_rfl
    | a :: b :: tail, hshort => exact absurd rfl (hshort a b tail)

theorem readStr_none {buffer : MessageBuffer} {rest : List Byte} (h : Left buffer limit rest)
    (hsmall : limit + 2 ^ 20 < 2 ^ 31) (hnone : announced rest = none) : ∃ after,
      readStr buffer = some ([], after) := by
  have hshort := announced_eq_none hnone
  have hread : ∃ after, buffer.read false 16 = (0, false, after) := by
    rcases h with hunread | ⟨-, hmax, pos, hcur, hlt, hle⟩
    · have hcur := hunread.curBit_nat
      have hmax := hunread.maxBit_eq
      have hle := hunread.le
      rw [length_bitsOf] at hcur hle
      rw [MessageBuffer.read, MessageBuffer.readBitsSingle_short hcur (by simp; omega) (by simp; omega)]
      exact ⟨_, rfl⟩
    · rw [MessageBuffer.read, MessageBuffer.readBitsSingle_short hcur (by simp; omega) (by simp; omega)]
      exact ⟨_, rfl⟩
  obtain ⟨after, hread⟩ := hread
  exact ⟨after, by rw [readStr, hread]; rfl⟩

/-- A counted string whose length is read: it is there, or zeros stand for it. -/
theorem readStr_some {buffer : MessageBuffer} {a b : Byte} {tail : List Byte}
    (h : buffer.Unread limit (bitsOf (a :: b :: tail))) (hsmall : limit + 2 ^ 20 < 2 ^ 31) :
    ∃ after, readStr buffer = some ((field (a :: b :: tail)).1, after) ∧
      ((field (a :: b :: tail)).1 ≠ [] → Left after limit (field (a :: b :: tail)).2) := by
  rw [bitsOf_two] at h
  obtain ⟨first, hfirst, hbody⟩ := MessageBuffer.Unread.read false (n := 16) (by simp) (by simp) h
  have hlt := @announced_lt (a :: b :: tail) _ rfl
  generalize hlength : (a ++ b : BitVec 16).toNat = length at *
  have hvalue : (BitVec.ofNat 32 (length % 2 ^ MessageBuffer.hackLength false 16)).toNat = length := by
    rw [MessageBuffer.hackLength_false, BitVec.toNat_ofNat]
    omega
  rw [readStr, hfirst]
  dsimp only
  rw [hvalue, field, announced, hlength]
  dsimp only
  by_cases hzero : length = 0
  · rw [if_pos hzero, if_pos hzero]
    exact ⟨first, rfl, fun hne => absurd rfl hne⟩
  · rw [if_neg hzero, if_neg hzero]
    by_cases hfits : length + 1 ≤ (a :: b :: tail).length
    · rw [if_pos hfits]
      rw [List.length_cons, List.length_cons] at hfits
      have hlen : (tail.take (length - 1)).length = length - 1 := by
        rw [List.length_take]
        omega
      rw [← List.take_append_drop (length - 1) tail, bitsOf_append] at hbody
      obtain ⟨second, hsecond, hrest⟩ := hbody.readBytes false (List.replicate (length - 1) 0)
        (MessageBuffer.hackLength_false _) (by rw [List.length_replicate, hlen])
      rw [hlen] at hsecond
      refine ⟨(second.read false 8).2.2, by rw [hsecond]; rfl, fun _ => ?_⟩
      have hleft := read_byte hrest hsmall
      rw [List.drop_drop] at hleft
      rw [show length + 2 = (length - 1 + 1) + 1 + 1 by omega]
      exact hleft
    · rw [if_neg hfits]
      rw [List.length_cons, List.length_cons] at hfits
      have hcur := hbody.curBit_nat
      have hmax := hbody.maxBit_eq
      have hle := hbody.le
      rw [length_bitsOf] at hcur hle
      have hsecond := @MessageBuffer.readBits_short false first _ (8 * (length - 1))
        (List.replicate (length - 1) 0) hcur (MessageBuffer.hackLength_false _) (by omega) (by omega) (by omega)
      rw [Nat.cast_mul, Nat.cast_ofNat] at hsecond
      refine ⟨(first.read false 8).2.2, by rw [hsecond]; rfl, fun _ => ?_⟩
      exact read_byte hbody hsmall

theorem readStr_left {buffer : MessageBuffer} {rest : List Byte} (h : Left buffer limit rest)
    (hsmall : limit + 2 ^ 20 < 2 ^ 31) :
    ∃ after, readStr buffer = some ((field rest).1, after) ∧
      ((field rest).1 ≠ [] → Left after limit (field rest).2) := by
  cases hlength : announced rest with
  | none =>
    obtain ⟨after, hread⟩ := readStr_none h hsmall hlength
    rw [field, hlength]
    exact ⟨after, hread, fun hne => absurd rfl hne⟩
  | some length =>
    match rest, h, hlength with
    | a :: b :: tail, .inl hunread, _ => exact readStr_some hunread hsmall

end Reading

/-- `HandlePacket` finds in any packet what `fields` says. -/
theorem parsePacket_eq {dataRaw : List Byte} (hsmall : dataRaw.length ≤ 2 ^ 27) :
    parsePacket dataRaw = some (fields dataRaw) := by
  have hlimit : 8 * dataRaw.length + 2 ^ 20 < 2 ^ 31 := by omega
  have hstart : Left (.ofBytes dataRaw) (8 * dataRaw.length) dataRaw :=
    .inl (MessageBuffer.unread_ofBytes dataRaw (by omega))
  obtain ⟨first, hfirst, hkeyRest⟩ := readStr_left hstart hlimit
  rw [parsePacket, hfirst, Option.bind_eq_bind, Option.bind_some, fields]
  dsimp only
  by_cases hid : (field dataRaw).1 = []
  · rw [if_pos hid, if_pos hid]
  · rw [if_neg hid, if_neg hid]
    obtain ⟨second, hsecond, hvalueRest⟩ := readStr_left (hkeyRest hid) hlimit
    rw [hsecond, Option.bind_eq_bind, Option.bind_some]
    dsimp only
    generalize field (field dataRaw).2 = key at *
    by_cases hkey : key.1 = []
    · rw [if_pos hkey, if_pos hkey]
    · rw [if_neg hkey, if_neg hkey]
      rcases hvalueRest hkey with hunread | ⟨hnil, hmax, pos, hcur, hlt, hle⟩
      · have hcurrent := hunread.getCurrentBit
        have hfits := hunread.le
        rw [length_bitsOf] at hcurrent hfits
        have hleft : dataRaw.length * 8 - second.getCurrentBit = 8 * key.2.length := by omega
        rw [hleft]
        by_cases hnil : key.2 = []
        · rw [if_pos (by rw [hnil]; rfl), if_pos hnil]
        · have hpos := List.length_pos_of_ne_nil hnil
          have hint : int32 ((8 * key.2.length : Nat) : Int) = 8 * key.2.length := by
            push_cast
            exact int32_eq (by omega) (by omega)
          rw [← List.append_nil (bitsOf key.2)] at hunread
          obtain ⟨third, hthird, _⟩ := hunread.readBytes false (List.replicate key.2.length 0)
            (MessageBuffer.hackLength_false _) List.length_replicate
          rw [if_neg (by omega), if_neg hnil, Nat.mul_div_cancel_left _ (by omega : 0 < 8), hint, hthird]
          rfl
      · have hcurrent : second.getCurrentBit = 8 * dataRaw.length := by
          rw [MessageBuffer.getCurrentBit, hcur, hmax]
          omega
        rw [hcurrent, if_pos (by omega), if_pos hnil]

section Fields

variable {rest dataRaw : List Byte} {length : Nat}

theorem field_there (h : announced rest = some length) (htwo : 2 ≤ length) (hroom : length + 1 ≤ rest.length) :
    field rest = ((rest.drop 2).take (length - 1), rest.drop (length + 2)) := by
  rw [field, h]
  dsimp only
  rw [if_neg (by omega), if_pos hroom]

theorem field_missing (h : announced rest = some length) (htwo : 2 ≤ length) (hroom : rest.length < length + 1) :
    field rest = (List.replicate (length - 1) 0, rest.drop 3) := by
  rw [field, h]
  dsimp only
  rw [if_neg (by omega), if_neg (by omega)]

theorem field_ne_nil (h : announced rest = some length) (htwo : 2 ≤ length) : (field rest).1 ≠ [] := by
  intro hnil
  have hlength := congrArg List.length hnil
  by_cases hroom : length + 1 ≤ rest.length
  · rw [field_there h htwo hroom, List.length_take, List.length_drop, List.length_nil] at hlength
    omega
  · rw [field_missing h htwo (by omega), List.length_replicate, List.length_nil] at hlength
    omega

/-- A string that is not empty was announced with its terminator. -/
theorem two_le_of_field (h : (field rest).1 ≠ []) : ∃ length, announced rest = some length ∧ 2 ≤ length := by
  cases hlength : announced rest with
  | none =>
    rw [field, hlength] at h
    exact absurd rfl h
  | some length =>
    refine ⟨length, rfl, ?_⟩
    by_contra hshort
    rw [field, hlength] at h
    dsimp only at h
    split at h
    · exact h rfl
    · split at h <;> exact h (by simp [show length - 1 = 0 by omega])

/-- A string with the byte after it is the front of what is left. -/
theorem there_split (h : announced rest = some length) (hpos : 1 ≤ length) (hroom : length + 2 ≤ rest.length) :
    ∃ a b after : Byte, rest = a :: b :: (rest.drop 2).take (length - 1) ++ after :: rest.drop (length + 2) ∧
      (a ++ b : BitVec 16).toNat = length ∧ ((rest.drop 2).take (length - 1)).length = length - 1 := by
  match rest, h with
  | a :: b :: tail, h =>
    rw [List.length_cons, List.length_cons] at hroom
    have hafter : length - 1 < tail.length := by omega
    refine ⟨a, b, tail[length - 1], ?_, Option.some.inj h, ?_⟩
    · have hdrop : tail.drop (length - 1) = tail[length - 1] :: tail.drop (length - 1 + 1) :=
        List.drop_eq_getElem_cons hafter
      rw [show length + 2 = (length - 1 + 1) + 1 + 1 by omega]
      change a :: b :: tail = a :: b :: (tail.take (length - 1) ++ tail[length - 1] :: tail.drop (length - 1 + 1))
      rw [← hdrop, List.take_append_drop]
    · change (tail.take (length - 1)).length = length - 1
      rw [List.length_take]
      omega

/-- After the zeros for an id, a key and data are found. -/
def ReadsOn (rest : List Byte) : Prop :=
  ∃ length, announced rest = some length ∧ 2 ≤ length ∧
    (length + 2 < rest.length ∨ rest.length < length + 1 ∧ 3 < rest.length)

/-- The key is not there, but there are bytes to take for the data. -/
def KeyMissing (rest : List Byte) : Prop :=
  ∃ length, announced rest = some length ∧ rest.length < length + 1 ∧ 3 < rest.length

/-- The packet announces an id or a key that it does not have, and is taken for one about the bag `name`: zeros, if it
is the id that is missing. -/
def Misread (dataRaw : List Byte) (name : Str) : Prop :=
  ∃ length, announced dataRaw = some length ∧ 2 ≤ length ∧
    (dataRaw.length < length + 1 ∧ name = List.replicate (length - 1) 0 ∧ ReadsOn (dataRaw.drop 3) ∨
      length + 1 ≤ dataRaw.length ∧ name = (dataRaw.drop 2).take (length - 1) ∧ KeyMissing (dataRaw.drop (length + 2)))

theorem fields_eq_some {id key data : Str} : fields dataRaw = some (id, key, data) ↔
    (field dataRaw).1 = id ∧ id ≠ [] ∧ (field (field dataRaw).2).1 = key ∧ key ≠ [] ∧
      (field (field dataRaw).2).2 = data ∧ data ≠ [] := by
  rw [fields]
  dsimp only
  constructor
  · intro h
    split at h
    · cases h
    · split at h
      · cases h
      · split at h
        · cases h
        · obtain ⟨rfl, hrest⟩ := Prod.mk.inj (Option.some.inj h)
          obtain ⟨rfl, rfl⟩ := Prod.mk.inj hrest
          exact ⟨rfl, ‹_›, rfl, ‹_›, rfl, ‹_›⟩
  · rintro ⟨rfl, hid, rfl, hkey, rfl, hdata⟩
    rw [if_neg hid, if_neg hkey, if_neg hdata]

/-- What a packet is taken for is either what it is, or some of it is not there. -/
theorem fields_cases {id key data : Str} (h : fields dataRaw = some (id, key, data)) :
    Misread dataRaw id ∨ Exactly dataRaw id key data ∧ ¬ RunsPast dataRaw := by
  obtain ⟨hidEq, hid, hkeyEq, hkey, hdataEq, hdata⟩ := fields_eq_some.mp h
  obtain ⟨length, hlength, htwo⟩ := two_le_of_field (hidEq ▸ hid)
  obtain ⟨length', hlength', htwo'⟩ := two_le_of_field (hkeyEq ▸ hkey)
  have hdataPos := List.length_pos_of_ne_nil hdata
  by_cases hroom : length + 1 ≤ dataRaw.length
  · rw [field_there hlength htwo hroom] at hidEq hkeyEq hdataEq hlength'
    dsimp only at hidEq hkeyEq hdataEq hlength'
    by_cases hroom' : length' + 1 ≤ (dataRaw.drop (length + 2)).length
    · right
      rw [field_there hlength' htwo' hroom'] at hkeyEq hdataEq
      dsimp only at hkeyEq hdataEq
      rw [List.length_drop] at hroom'
      rw [← hdataEq, List.length_drop, List.length_drop] at hdataPos
      constructor
      · obtain ⟨a, b, first, hsplit, hword, hlen⟩ := there_split hlength (by omega) (by omega)
        obtain ⟨c, d, second, hsplit', hword', hlen'⟩ := there_split hlength' (by omega)
          (by rw [List.length_drop]; omega)
        rw [hidEq] at hsplit hlen
        rw [hkeyEq, hdataEq] at hsplit'
        rw [hkeyEq] at hlen'
        refine ⟨⟨first, second, a, b, c, d, ?_, by omega, by omega⟩, hid, hkey, hdata⟩
        rw [hsplit'] at hsplit
        simpa using hsplit
      · rintro ⟨l, hl, hpast⟩
        obtain rfl := Option.some.inj (hlength.symm.trans hl)
        rcases hpast with hpast | ⟨l', hl', hpast⟩
        · omega
        · obtain rfl := Option.some.inj (hlength'.symm.trans hl')
          omega
    · left
      refine ⟨length, hlength, htwo, .inr ⟨hroom, hidEq.symm, length', hlength', by omega, ?_⟩⟩
      rw [field_missing hlength' htwo' (by omega)] at hdataEq
      dsimp only at hdataEq
      rw [← hdataEq, List.length_drop] at hdataPos
      omega
  · left
    rw [field_missing hlength htwo (by omega)] at hidEq hkeyEq hdataEq hlength'
    dsimp only at hidEq hkeyEq hdataEq hlength'
    refine ⟨length, hlength, htwo, .inl ⟨by omega, hidEq.symm, length', hlength', htwo', ?_⟩⟩
    by_cases hroom' : length' + 1 ≤ (dataRaw.drop 3).length
    · rw [field_there hlength' htwo' hroom'] at hdataEq
      dsimp only at hdataEq
      rw [← hdataEq, List.length_drop] at hdataPos
      omega
    · rw [field_missing hlength' htwo' (by omega)] at hdataEq
      dsimp only at hdataEq
      rw [← hdataEq, List.length_drop] at hdataPos
      omega

theorem Misread.runsPast {name : Str} (h : Misread dataRaw name) : RunsPast dataRaw := by
  obtain ⟨length, hlength, htwo, ⟨hroom, -, -⟩ | ⟨hroom, -, length', hlength', hroom', hleft⟩⟩ := h
  · exact ⟨length, hlength, .inl (by omega)⟩
  · rw [List.length_drop] at hroom' hleft
    exact ⟨length, hlength, .inr ⟨length', hlength', by omega⟩⟩

theorem Misread.fields {name : Str} (h : Misread dataRaw name) : ∃ key data,
    fields dataRaw = some (name, key, data) := by
  obtain ⟨length, hlength, htwo, hcase⟩ := h
  have hid := field_ne_nil hlength htwo
  refine ⟨(field (field dataRaw).2).1, (field (field dataRaw).2).2, fields_eq_some.mpr ?_⟩
  rcases hcase with ⟨hroom, rfl, length', hlength', htwo', hdata⟩ | ⟨hroom, rfl, length', hlength', hroom', hleft⟩
  · rw [field_missing hlength htwo hroom] at hid ⊢
    dsimp only at hid ⊢
    refine ⟨rfl, hid, rfl, field_ne_nil hlength' htwo', rfl, fun hnil => ?_⟩
    have hzero := congrArg List.length hnil
    by_cases hroom' : length' + 1 ≤ (dataRaw.drop 3).length
    · rw [field_there hlength' htwo' hroom', List.length_drop, List.length_nil] at hzero
      omega
    · rw [field_missing hlength' htwo' (by omega), List.length_drop, List.length_nil] at hzero
      omega
  · rw [field_there hlength htwo hroom] at hid ⊢
    dsimp only at hid ⊢
    refine ⟨rfl, hid, rfl, field_ne_nil hlength' (by omega), rfl, fun hnil => ?_⟩
    have hzero := congrArg List.length hnil
    rw [field_missing hlength' (by omega) hroom', List.length_drop, List.length_nil] at hzero
    omega

end Fields

/-- A packet for a bag of this name changes nothing: the bag is not known and of no safe name, or another peer's. -/
def Ignored (w : StateBags) (source : Int) (name : Str) : Prop :=
  (w.getStateBag name = none ∧ w.isSafePreCreateName name = false) ∨
    ∃ bag b peer, w.getStateBag name = some bag ∧ w.bags[bag]? = some b ∧ b.owningPeer = some peer ∧ peer ≠ source

/-- `SetKey` is called only for a packet that is all there, with what is in it, and nothing happens to the component if
a length runs past the end. -/
structure AcceptsOnly (w : StateBags) (source : Int) (dataRaw : List Byte) : Prop where
  setKey : ∀ (change : StateBagChange) (w' : StateBags), w.handlePacket source dataRaw change = some w' →
    w'.setKeys ≠ w.setKeys → ∃ id key data bag, Exactly dataRaw id key data ∧ (w.findBag id).1 = some bag ∧
      w'.setKeys = w.setKeys ++ [⟨bag, source, key, data, w.component.role = .server⟩]
  runsPast : RunsPast dataRaw → ∀ (change : StateBagChange) (w' : StateBags),
    w.handlePacket source dataRaw change = some w' → w' = w

section Handle

variable {w w' : StateBags}

theorem setKeyInternal_setKeys {call : SetKeyCall} (h : w.setKeyInternal call = some w') : w'.setKeys = w.setKeys := by
  obtain ⟨b, hb, h⟩ := Option.bind_eq_some_iff.mp h
  dsimp only at h
  generalize hlast : (if call.replicated then b.data.getD call.key [] else []) = lastValue at h
  split at h
  · obtain ⟨new, hnew, _⟩ := sendKeyAll_sends (b := { b with data := b.data.insert call.key call.data })
      (by rw [StateBags.setBag, TreeMap.getElem?_insert_self]) (by simp) h
    rw [hnew.eq]
    rfl
  · cases h
    rfl

theorem setKey_setKeys {call : SetKeyCall} {change : StateBagChange} (h : w.setKey call change = some w') :
    w'.setKeys = w.setKeys ++ [call] := by
  obtain ⟨b, hb, h⟩ := Option.bind_eq_some_iff.mp h
  dsimp only at h
  cases change with
  | unhandled => exact setKeyInternal_setKeys h
  | taken => exact setKeyInternal_setKeys h
  | refused =>
    cases h
    rfl
  | queued =>
    cases h
    rfl

/-- A call is made whatever comes of it. -/
theorem setKey_refused {call : SetKeyCall} {b : StateBagImpl} (hb : w.bags[call.bag]? = some b) :
    ∃ w', w.setKey call .refused = some w' := by
  rw [setKey, hb]
  exact ⟨_, rfl⟩

theorem preCreateStateBag_setKeys {id : Str} (hget : w.getStateBag id = none) :
    (w.preCreateStateBag id).2.setKeys = w.setKeys := by
  rw [preCreateStateBag, registerStateBag, hget]
  rfl

theorem mem_of_getStateBag {id : Str} {bag : BagPtr} (h : w.getStateBag id = some bag) :
    ∃ b, w.bags[bag]? = some b := by
  obtain ⟨entry, -, hlock⟩ := Option.bind_eq_some_iff.mp h
  rw [lock] at hlock
  split at hlock
  · cases hlock
    exact ⟨_, TreeMap.getElem?_eq_some_getElem ‹_›⟩
  · cases hlock

/-- A packet that is taken for one about a bag nobody else owns, or of a safe name, leads to a call of `SetKey`. -/
theorem handlePacket_calls {source : Int} {dataRaw : List Byte} {id key data : Str}
    (hparse : parsePacket dataRaw = some (some (id, key, data))) (hignored : ¬ w.Ignored source id) :
    ∃ bag, (w.findBag id).1 = some bag ∧ ∀ change, ∃ mid : StateBags, mid.setKeys = w.setKeys ∧
      (∃ b, mid.bags[bag]? = some b) ∧ w.handlePacket source dataRaw change =
        mid.setKey ⟨bag, source, key, data, w.component.role = .server⟩ change := by
  cases hget : w.getStateBag id with
  | none =>
    have hsafe : w.isSafePreCreateName id = true := by
      by_contra hunsafe
      exact hignored (.inl ⟨hget, by simpa using hunsafe⟩)
    refine ⟨(w.preCreateStateBag id).1, by rw [findBag, hget]; dsimp only; rw [if_pos hsafe], fun change => ?_⟩
    exact ⟨_, preCreateStateBag_setKeys hget, ⟨_, (preCreateStateBag_unowned hget).1⟩,
      (handlePacket_delivered w source change hparse).safe hget hsafe⟩
  | some bag =>
    obtain ⟨b, hb⟩ := mem_of_getStateBag hget
    refine ⟨bag, by rw [findBag, hget], fun change => ⟨w, rfl, ⟨b, hb⟩, ?_⟩⟩
    refine (handlePacket_delivered w source change hparse).known bag b hget hb ?_
    cases howner : b.owningPeer with
    | none => exact .inl rfl
    | some peer =>
      by_cases hpeer : peer = source
      · exact .inr (by rw [hpeer])
      · exact absurd (.inr ⟨bag, b, peer, hget, hb, howner, hpeer⟩) hignored

theorem handlePacket_ignored {source : Int} {dataRaw : List Byte} {id key data : Str} {change : StateBagChange}
    (hparse : parsePacket dataRaw = some (some (id, key, data))) (hignored : w.Ignored source id) :
    w.handlePacket source dataRaw change = some w := by
  have hdelivered := handlePacket_delivered w source change hparse
  rcases hignored with ⟨hget, hsafe⟩ | ⟨bag, b, peer, hget, hb, howner, hne⟩
  · exact hdelivered.unknown hget hsafe
  · exact hdelivered.owned bag b peer hget hb howner hne

theorem handlePacket_none {source : Int} {dataRaw : List Byte} {change : StateBagChange}
    (hparse : parsePacket dataRaw = some none) : w.handlePacket source dataRaw change = some w := by
  rw [handlePacket, hparse]
  rfl

end Handle

/-- Only what is there is accepted exactly if no packet that announces too much is taken for one about a bag that the
sender may set. -/
theorem handlePacket_acceptsOnly_iff (w : StateBags) (source : Int) {dataRaw : List Byte}
    (hsmall : dataRaw.length ≤ 2 ^ 27) :
    w.AcceptsOnly source dataRaw ↔ ∀ name, Misread dataRaw name → w.Ignored source name := by
  have hparse := parsePacket_eq hsmall
  constructor
  · intro haccepts name hmisread
    by_contra hignored
    obtain ⟨key, data, hfields⟩ := hmisread.fields
    rw [hfields] at hparse
    obtain ⟨bag, -, hcalls⟩ := handlePacket_calls hparse hignored
    obtain ⟨mid, hkeys, ⟨b, hb⟩, hhandle⟩ := hcalls .refused
    obtain ⟨w', hset⟩ := @setKey_refused mid ⟨bag, source, key, data, w.component.role = .server⟩ b hb
    have hgrown := setKey_setKeys hset
    rw [haccepts.runsPast hmisread.runsPast .refused w' (hhandle.trans hset), hkeys] at hgrown
    simpa using congrArg List.length hgrown
  · intro hcondition
    have hstays : ∀ {change w'}, w.handlePacket source dataRaw change = some w' →
        (∃ id key data, fields dataRaw = some (id, key, data) ∧ ¬ w.Ignored source id) ∨ w' = w := by
      intro change w' hhandle
      cases hfields : fields dataRaw with
      | none =>
        rw [hfields] at hparse
        exact .inr (Option.some.inj (hhandle.symm.trans (handlePacket_none hparse)))
      | some found =>
        obtain ⟨id, key, data⟩ := found
        by_cases hignored : w.Ignored source id
        · rw [hfields] at hparse
          exact .inr (Option.some.inj (hhandle.symm.trans (handlePacket_ignored hparse hignored)))
        · exact .inl ⟨id, key, data, rfl, hignored⟩
    constructor
    · intro change w' hhandle hgrown
      obtain ⟨id, key, data, hfields, hignored⟩ := (hstays hhandle).resolve_right fun heq => hgrown (by rw [heq])
      obtain ⟨hexact, -⟩ := (fields_cases hfields).resolve_left fun hmisread => hignored (hcondition id hmisread)
      rw [hfields] at hparse
      obtain ⟨bag, hbag, hcalls⟩ := handlePacket_calls hparse hignored
      obtain ⟨mid, hkeys, -, hcall⟩ := hcalls change
      rw [hcall] at hhandle
      exact ⟨id, key, data, bag, hexact, hbag, by rw [setKey_setKeys hhandle, hkeys]⟩
    · intro hpast change w' hhandle
      refine (hstays hhandle).resolve_left ?_
      rintro ⟨id, key, data, hfields, hignored⟩
      rcases fields_cases hfields with hmisread | ⟨-, hfits⟩
      · exact hignored (hcondition id hmisread)
      · exact hfits hpast

theorem handlePacket_acceptsOnly_short : (create .server).AcceptsOnly 5 [0, 9, 112] :=
  (handlePacket_acceptsOnly_iff (create .server) 5 (by decide)).mpr fun name _ => .inl ⟨rfl, rfl⟩

/-- A key of 8 bytes is announced where 2 bytes are left, and `SetKey` is called with a key of zeros. -/
theorem handlePacket_zeroKey : ∃ w' : StateBags,
    ((create .server).addSafePreCreatePrefix [112]).handlePacket 5 [0, 2, 112, 0, 0, 9, 107, 118] .refused = some w' ∧
      RunsPast [0, 2, 112, 0, 0, 9, 107, 118] ∧ w'.setKeys = [⟨0, 5, List.replicate 8 0, [118], true⟩] := by
  have hparse := @parsePacket_eq [0, 2, 112, 0, 0, 9, 107, 118] (by decide)
  have hfields : fields [0, 2, 112, 0, 0, 9, 107, 118] = some ([112], List.replicate 8 0, [118]) := by decide +kernel
  rw [hfields] at hparse
  exact ⟨_, (handlePacket_delivered _ 5 .refused hparse).safe rfl (by decide +kernel),
    ⟨2, rfl, .inr ⟨9, rfl, by decide⟩⟩, rfl⟩

end fx.StateBags
