import Citizen.EventReassembly.Send

open Bits rl Std

namespace fx

theorem memcpy_eq_some {dest source : List Byte} {k : Nat} (h : k + source.length ≤ dest.length) :
    ∃ out, memcpy dest k source 0 source.length = some out ∧ out.length = dest.length ∧
      ∀ i, out[i]? = if k ≤ i ∧ i < k + source.length then source[i - k]? else dest[i]? := by
  have hk : (dest.take k).length = k := by simp; omega
  refine ⟨dest.take k ++ source ++ dest.drop (k + source.length), ?_, by simp; omega, ?_⟩
  · rw [memcpy, if_pos ⟨h, by omega⟩, List.drop_zero, List.take_length]
  · intro i
    rw [List.append_assoc, List.getElem?_append, hk]
    split
    · rw [if_neg (by omega), List.getElem?_take, if_pos (by omega)]
    · rw [List.getElem?_append]
      split
      · rw [if_pos (by omega)]
      · rw [if_neg (by omega), List.getElem?_drop]
        congr 1
        omega

/-- Fragments that fit in their slots are copied without leaving the buffer, and
each slot holds the beginning of its fragment afterwards. -/
theorem reassemble_spec {packetData : List (Nat × List Byte)} (eventPayload : List Byte)
    (hinside : ∀ p ∈ packetData, p.1 * kFragmentSize + p.2.length ≤ eventPayload.length)
    (hsize : ∀ p ∈ packetData, p.2.length ≤ kFragmentSize)
    (hdistinct : packetData.Pairwise fun p q => p.1 ≠ q.1) :
    ∃ out, reassemble packetData eventPayload = some out ∧ out.length = eventPayload.length ∧
      (∀ p ∈ packetData, ∀ j < p.2.length, out[p.1 * kFragmentSize + j]? = p.2[j]?) ∧
      ∀ k, (∀ p ∈ packetData, k / kFragmentSize ≠ p.1) → out[k]? = eventPayload[k]? := by
  simp only [kFragmentSize] at *
  induction packetData generalizing eventPayload with
  | nil => exact ⟨eventPayload, rfl, rfl, by simp, fun _ _ => rfl⟩
  | cons p packetData ih =>
    obtain ⟨hdiff, hdistinct⟩ := List.pairwise_cons.mp hdistinct
    have hp := hsize p List.mem_cons_self
    obtain ⟨mid, hcopy, hlen, hmid⟩ := memcpy_eq_some (hinside p List.mem_cons_self)
    obtain ⟨out, hout, hlen', hslots, hrest⟩ := ih _
      (fun q hq => hlen ▸ hinside q (List.mem_cons_of_mem _ hq)) (fun q hq => hsize q (List.mem_cons_of_mem _ hq))
      hdistinct
    refine ⟨out, ?_, hlen'.trans hlen, ?_, ?_⟩
    · rw [reassemble, List.foldlM_cons]
      simp only [kFragmentSize, hcopy, Option.bind_eq_bind, Option.bind_some]
      exact hout
    · intro q hq j hj
      rcases List.mem_cons.mp hq with rfl | hq
      · rw [hrest _ fun r hr => ?_, hmid, if_pos (by omega), Nat.add_sub_cancel_left]
        have := hdiff r hr
        omega
      · exact hslots q hq j hj
    · intro k hk
      have hne := hk p List.mem_cons_self
      rw [hrest k fun r hr => hk r (List.mem_cons_of_mem _ hr), hmid, if_neg (by omega)]

/-- Every stored fragment is of a slot of the event, and fits in it. -/
def ReceiveEvent.Slotted (event : ReceiveEvent) : Prop :=
  ∀ (i : Nat) bytes, event.packetData[i]? = some bytes → i < event.ackedBits.length ∧ bytes.length ≤ kFragmentSize

theorem packetData_distinct (packetData : TreeMap Nat (List Byte)) :
    packetData.toList.Pairwise fun p q => p.1 ≠ q.1 := by
  refine packetData.distinct_keys_toList.imp fun h => ?_
  rwa [LawfulEqCmp.compare_eq_iff_eq] at h

theorem ReceiveEvent.Slotted.readSize_le {event : ReceiveEvent} (h : event.Slotted) :
    (event.packetData.toList.map fun p => p.2.length).sum ≤ event.ackedBits.length * kFragmentSize := by
  have hkeys : (event.packetData.toList.map (·.1)).Nodup := by
    rw [List.nodup_iff_pairwise_ne, List.pairwise_map]
    exact packetData_distinct _
  have hcount : event.packetData.toList.length ≤ event.ackedBits.length := by
    have hsub : event.packetData.toList.map (·.1) ⊆ List.range event.ackedBits.length := by
      intro i hi
      obtain ⟨⟨i, bytes⟩, hmem, rfl⟩ := List.mem_map.mp hi
      exact List.mem_range.mpr (h i bytes (TreeMap.mem_toList_iff_getElem?_eq_some.mp hmem)).1
    simpa using (hkeys.subperm hsub).length_le
  calc (event.packetData.toList.map fun p => p.2.length).sum
      ≤ (event.packetData.toList.map fun p => p.2.length).length * kFragmentSize := by
        refine List.sum_le_card_nsmul _ _ fun n hn => ?_
        obtain ⟨⟨i, bytes⟩, hmem, rfl⟩ := List.mem_map.mp hn
        exact (h i bytes (TreeMap.mem_toList_iff_getElem?_eq_some.mp hmem)).2
    _ ≤ event.ackedBits.length * kFragmentSize := by
        rw [List.length_map]
        exact Nat.mul_le_mul_right _ hcount

theorem memcpy_front {source : List Byte} {n : Nat} (h : n ≤ source.length) :
    memcpy (List.replicate n 0) 0 source 0 n = some (source.take n) := by
  have hlen : (List.replicate n (0 : Byte)).length = n := List.length_replicate
  rw [memcpy, if_pos ⟨by omega, by omega⟩]
  simp

/-- Reassembling slotted fragments leaves no buffer. -/
theorem reassembledBytes_isSome {event : ReceiveEvent} (h : event.Slotted) :
    ∃ data, reassembledBytes event = some data ∧ data.length ≤ event.ackedBits.length * kFragmentSize := by
  have hroom : (List.replicate (event.ackedBits.length * kFragmentSize) (0 : Byte)).length =
      event.ackedBits.length * kFragmentSize := List.length_replicate
  have hread := h.readSize_le
  obtain ⟨out, hout, hlen, -, -⟩ := reassemble_spec
    (List.replicate (event.ackedBits.length * kFragmentSize) 0) (fun p hp => by
      obtain ⟨hslot, hsize⟩ := h p.1 p.2 (TreeMap.mem_toList_iff_getElem?_eq_some.mp hp)
      have hend := Nat.mul_le_mul_right kFragmentSize (Nat.succ_le_of_lt hslot)
      rw [Nat.succ_mul] at hend
      omega)
    (fun p hp => (h p.1 p.2 (TreeMap.mem_toList_iff_getElem?_eq_some.mp hp)).2) (packetData_distinct _)
  refine ⟨out.take (event.packetData.toList.map fun p => p.2.length).sum, ?_, ?_⟩
  · simp only [reassembledBytes, hout, Option.bind_eq_bind, Option.bind_some]
    exact memcpy_front (by omega)
  · rw [List.length_take]
    omega

/-- The bytes of slot `i`. -/
def slot (bytes : List Byte) (i : Nat) : List Byte := (bytes.drop (i * kFragmentSize)).take kFragmentSize

theorem fragment_payload (eventId : EventId) (bytes : List Byte) (totalPackets i : Nat) :
    (fragment eventId bytes totalPackets i).payload = slot bytes i := by
  rw [fragment, slot, ← List.length_drop, Nat.min_comm, ← List.take_take, List.take_length]

theorem slot_length (bytes : List Byte) (i : Nat) :
    (slot bytes i).length = min (bytes.length - i * kFragmentSize) kFragmentSize := by
  rw [slot, List.length_take, List.length_drop, Nat.min_comm]

private theorem sum_slot_length (bytes : List Byte) (n : Nat) :
    ((List.range n).map fun i => (slot bytes i).length).sum = min bytes.length (n * kFragmentSize) := by
  induction n with
  | zero => simp
  | succ n ih =>
    rw [List.range_succ, List.map_append, List.sum_append, ih, List.map_singleton, List.sum_singleton, slot_length,
      Nat.succ_mul]
    omega

/-- With one slot of `bytes` stored for each bit, reassembling yields `bytes`. -/
theorem reassembledBytes_slots {event : ReceiveEvent} {bytes : List Byte}
    (hbits : event.ackedBits.length = packetCount bytes)
    (hdata : ∀ i, event.packetData[i]? = if i < packetCount bytes then some (slot bytes i) else none) :
    reassembledBytes event = some bytes := by
  have hcount : bytes.length ≤ packetCount bytes * kFragmentSize := by
    rw [packetCount_eq, kFragmentSize]
    omega
  have hmem : ∀ p, p ∈ event.packetData.toList ↔ p ∈ (List.range (packetCount bytes)).map fun i =>
    (i, slot bytes i) := by
    rintro ⟨i, b⟩
    rw [TreeMap.mem_toList_iff_getElem?_eq_some, hdata]
    simp
  have hperm : event.packetData.toList.Perm ((List.range (packetCount bytes)).map fun i => (i, slot bytes i)) := by
    refine (List.perm_ext_iff_of_nodup ?_ ?_).mpr hmem
    · exact (packetData_distinct _).imp fun hne heq => hne (by rw [heq])
    · rw [List.nodup_iff_pairwise_ne, List.pairwise_map]
      exact List.nodup_range.imp fun hne heq => hne (Prod.mk.inj heq).1
  have hread : (event.packetData.toList.map fun p => p.2.length).sum = bytes.length := by
    rw [(hperm.map _).sum_nat, List.map_map]
    exact (sum_slot_length bytes _).trans (Nat.min_eq_left hcount)
  have hslots : ∀ p ∈ event.packetData.toList, p.1 < packetCount bytes ∧ p.2 = slot bytes p.1 := by
    intro p hp
    obtain ⟨i, hi, rfl⟩ := List.mem_map.mp ((hmem p).mp hp)
    exact ⟨List.mem_range.mp hi, rfl⟩
  obtain ⟨out, hout, hlen, hin, -⟩ := reassemble_spec
    (List.replicate (event.ackedBits.length * kFragmentSize) 0) (fun p hp => by
      obtain ⟨hslot, hbytes⟩ := hslots p hp
      have hend := Nat.mul_le_mul_right kFragmentSize (Nat.succ_le_of_lt hslot)
      rw [Nat.succ_mul] at hend
      rw [List.length_replicate, hbits, hbytes, slot_length]
      omega)
    (fun p hp => by rw [(hslots p hp).2, slot_length]; exact Nat.min_le_right _ _) (packetData_distinct _)
  have hprefix : out.take bytes.length = bytes := by
    apply List.ext_getElem?
    intro k
    rw [List.getElem?_take]
    split
    · rename_i hk
      have hslot : k / kFragmentSize < packetCount bytes := Nat.div_lt_of_lt_mul (by rw [Nat.mul_comm]; omega)
      have hoff : k % kFragmentSize < kFragmentSize := Nat.mod_lt _ (by decide)
      have hsplit : k / kFragmentSize * kFragmentSize + k % kFragmentSize = k := Nat.div_add_mod' _ _
      have hget := hin (k / kFragmentSize, slot bytes (k / kFragmentSize)) ((hmem _).mpr
        (List.mem_map.mpr ⟨_, List.mem_range.mpr hslot, rfl⟩)) (k % kFragmentSize) (by rw [slot_length]; omega)
      rw [hsplit] at hget
      rw [hget, slot, List.getElem?_take, if_pos hoff, List.getElem?_drop, hsplit]
    · rw [List.getElem?_eq_none (by omega)]
  simp only [reassembledBytes, hout, Option.bind_eq_bind, Option.bind_some, hread]
  rw [memcpy_front (by rw [hlen, List.length_replicate, hbits]; exact hcount), hprefix]

/-- The three ways to split received bytes: too short for the name length, the whole
name is there, or the name length exceeds what is there. -/
theorem size16_cases (data : List Byte) :
    data.length < 2 ∨ ∃ n rest, n < 65536 ∧ data = size16 n ++ rest := by
  match data with
  | [] => exact Or.inl (by simp)
  | [b] => exact Or.inl (by simp)
  | high :: low :: rest =>
    have hhigh := high.isLt
    have hlow := low.isLt
    refine Or.inr ⟨256 * high.toNat + low.toNat, rest, by omega, ?_⟩
    have hfirst : BitVec.ofNat 8 ((256 * high.toNat + low.toNat) / 256) = high := by
      rw [show (256 * high.toNat + low.toNat) / 256 = high.toNat by omega]
      rw [BitVec.ofNat_toNat, BitVec.setWidth_eq]
    have hsecond : BitVec.ofNat 8 (256 * high.toNat + low.toNat) = low := by
      apply BitVec.eq_of_toNat_eq
      rw [BitVec.toNat_ofNat]
      omega
    rw [size16, hfirst, hsecond]
    rfl

theorem size16_append_inj {n m : Nat} {rest rest' : List Byte} (hn : n < 65536) (hm : m < 65536)
    (h : size16 n ++ rest = size16 m ++ rest') : n = m ∧ rest = rest' := by
  obtain ⟨hsize, hrest⟩ := List.append_inj h rfl
  simp only [size16, List.cons.injEq, and_true] at hsize
  have hhigh := congrArg BitVec.toNat hsize.1
  have hlow := congrArg BitVec.toNat hsize.2
  rw [BitVec.toNat_ofNat, BitVec.toNat_ofNat] at hhigh hlow
  exact ⟨by omega, hrest⟩

theorem read_size16 (data : List Byte) {rest : List Byte} {n : Nat} (hn : n < 65536) (hdata : data = size16 n ++ rest)
    (hsmall : 8 * data.length < 2 ^ 31) :
    ∃ buffer, (MessageBuffer.ofBytes data).read false 16 = (BitVec.ofNat 32 n, true, buffer) ∧ buffer.At data 16 := by
  have hfield : Field data 0 16 (BitVec.ofNat 32 n) := by
    intro i hi
    rw [hdata, Nat.zero_add, bitAt_append, if_pos (by rw [size16_length]; omega), bitAt_size16 n hi]
  have hroom : 2 ≤ data.length := by
    rw [hdata, List.length_append, size16_length]
    omega
  obtain ⟨buffer, hread, hat⟩ := (MessageBuffer.ofBytes_at hsmall).readBitsSingle
    (MessageBuffer.hackLength_false 16) (by omega) (by omega) (by omega) hfield
  refine ⟨buffer, ?_, hat⟩
  rw [MessageBuffer.read, hread]
  dsimp only
  have hvalue : (BitVec.ofNat 32 n).toNat % 2 ^ 16 = n := by
    rw [BitVec.toNat_ofNat]
    omega
  rw [hvalue]

private theorem takeWhile_nul (name rest : List Byte) :
    (name ++ 0 :: rest).takeWhile (· ≠ 0) = name.takeWhile (· ≠ 0) := by
  induction name with
  | nil => simp
  | cons b name ih =>
    rw [List.cons_append, List.takeWhile_cons, List.takeWhile_cons, ih]

/-- A name without a NUL is not cut. -/
theorem takeWhile_nul_eq_self {name : List Byte} : name.takeWhile (· ≠ 0) = name ↔ 0 ∉ name := by
  rw [List.takeWhile_eq_self_iff]
  constructor
  · exact fun hall hmem => by simpa using hall 0 hmem
  · intro hnul b hb
    simpa using fun heq : b = 0 => hnul (heq ▸ hb)

/-- With the whole name there, the event is split where it was joined. The name is
cut at its first NUL. -/
theorem parseEvent_full {array : List Byte} (name : List Byte) {payload : List Byte}
    (harray : array.length = kEventNameSize) (hname : name.length < 65536)
    (hsmall : 8 * (size16 name.length ++ name ++ payload).length < 2 ^ 31) :
    parseEvent array (size16 name.length ++ name ++ payload) =
      some (name ++ 0 :: array.drop (name.length + 1), name.takeWhile (· ≠ 0), payload) := by
  change array.length = 65536 at harray
  have hlen : (size16 name.length ++ name ++ payload).length = 2 + name.length + payload.length := by
    rw [List.length_append, List.length_append, size16_length]
  obtain ⟨b₁, hread, h₁⟩ := read_size16 _ hname (List.append_assoc ..) hsmall
  have hn : (BitVec.ofNat 32 name.length).toNat = name.length := by
    rw [BitVec.toNat_ofNat]
    omega
  obtain ⟨b₂, array₁, hbits, h₂, hsplice⟩ := h₁.readBits array
    (MessageBuffer.hackLength_false (name.length * 8)) (by omega) (by omega)
  have hcopied : array₁ = name ++ array.drop name.length := by
    have hbytes := Splice.eq_bytes name (k := 0)
      (by
        rw [Nat.mul_zero, Nat.mul_comm]
        refine hsplice.congr fun i hi => ?_
        rw [List.append_assoc, bitAt_append, if_neg (by rw [size16_length]; omega), bitAt_append,
          if_pos (by rw [size16_length]; omega), size16_length, show 16 + i - 8 * 2 = i by omega])
      (by omega)
    rwa [List.take_zero, List.nil_append, Nat.zero_add] at hbytes
  have hset : array₁.set name.length 0 = name ++ 0 :: array.drop (name.length + 1) := by
    rw [hcopied, List.drop_eq_getElem_cons (by omega), List.set_append_right _ _ (Nat.le_refl _), Nat.sub_self,
      List.set_cons_zero]
  have hlen₁ : array₁.length = 65536 := hsplice.length_eq.trans harray
  have hpos : b₂.getCurrentBit / 8 = (size16 name.length ++ name).length := by
    rw [h₂.getCurrentBit, hlen, List.length_append, size16_length]
    omega
  rw [parseEvent, hread]
  dsimp only
  rw [hn, hbits]
  simp only [Option.bind_eq_bind, Option.bind_some]
  rw [store, if_pos (by omega), Option.bind_some, hset, takeWhile_nul, h₂.data_eq, hpos, List.drop_left]

/-- With less than the whole name there, the name is whatever the array held. -/
theorem parseEvent_overrun {array rest : List Byte} {n : Nat} (harray : array.length = kEventNameSize) (hn : n < 65536)
    (hover : rest.length < n) (hsmall : 8 * (size16 n ++ rest).length < 2 ^ 31) :
    parseEvent array (size16 n ++ rest) = some (array.set n 0, (array.set n 0).takeWhile (· ≠ 0), rest) := by
  change array.length = 65536 at harray
  have hlen : (size16 n ++ rest).length = 2 + rest.length := by
    rw [List.length_append, size16_length]
  obtain ⟨b₁, hread, h₁⟩ := read_size16 _ hn rfl hsmall
  have hvalue : (BitVec.ofNat 32 n).toNat = n := by
    rw [BitVec.toNat_ofNat]
    omega
  have hmax := h₁.maxBit_eq
  have hbits := MessageBuffer.readBits_short array h₁.curBit_eq (MessageBuffer.hackLength_false (n * 8))
    (by omega) (by omega) (by omega)
  have hpos : b₁.getCurrentBit / 8 = (size16 n).length := by
    rw [h₁.getCurrentBit, size16_length]
    omega
  rw [parseEvent, hread]
  dsimp only
  rw [hvalue, hbits]
  simp only [Option.bind_eq_bind, Option.bind_some]
  rw [store, if_pos (by omega), Option.bind_some, h₁.data_eq, hpos, List.drop_left]

theorem parseEvent_short {array data : List Byte} (harray : array.length = kEventNameSize) (hshort : data.length < 2) :
    parseEvent array data = some (array.set 0 0, [], []) := by
  change array.length = 65536 at harray
  have hat : (MessageBuffer.ofBytes data).At data 0 := MessageBuffer.ofBytes_at (by omega)
  have hmax := hat.maxBit_eq
  have hread : (MessageBuffer.ofBytes data).read false 16 =
      (0, false, { MessageBuffer.ofBytes data with curBit := 16 }) := by
    rw [MessageBuffer.read, MessageBuffer.readBitsSingle_short hat.curBit_eq (by simp) (by simp; omega)]
    rfl
  have hpos : MessageBuffer.getCurrentBit { MessageBuffer.ofBytes data with curBit := 16 } / 8 = data.length := by
    rw [MessageBuffer.getCurrentBit, hmax]
    dsimp only
    omega
  have hempty : (array.set 0 0).takeWhile (· ≠ 0) = [] := by
    cases array with
    | nil => rfl
    | cons b array => rw [List.set_cons_zero, List.takeWhile_cons_of_neg (by simp)]
  rw [parseEvent, hread]
  dsimp only
  rw [show ((0 : BitVec 32).toNat * 8 : Nat) = 0 from rfl, Nat.cast_zero, MessageBuffer.readBits_zero]
  simp only [Option.bind_eq_bind, Option.bind_some]
  rw [store, if_pos (by rw [harray]; decide), Option.bind_some, hpos]
  change some (array.set 0 0, (array.set 0 0).takeWhile (· ≠ 0), data.drop data.length) = _
  rw [hempty, List.drop_length]

/-- Splitting any bytes is defined and keeps the size of the array. -/
theorem parseEvent_isSome {array : List Byte} (data : List Byte) (harray : array.length = kEventNameSize)
    (hsmall : 8 * data.length < 2 ^ 31) :
    ∃ array' name payload, parseEvent array data = some (array', name, payload) ∧ array'.length = kEventNameSize := by
  rcases size16_cases data with hshort | ⟨n, rest, hn, rfl⟩
  · exact ⟨_, _, _, parseEvent_short harray hshort, by rw [List.length_set]; exact harray⟩
  rcases Nat.lt_or_ge rest.length n with hover | hfull
  · exact ⟨_, _, _, parseEvent_overrun harray hn hover hsmall, by rw [List.length_set]; exact harray⟩
  · have hname : (rest.take n).length = n := List.length_take_of_le hfull
    have hsplit : size16 n ++ rest = size16 (rest.take n).length ++ rest.take n ++ rest.drop n := by
      rw [hname, List.append_assoc, List.take_append_drop]
    rw [hsplit] at hsmall ⊢
    refine ⟨_, _, _, parseEvent_full _ harray (by omega) hsmall, ?_⟩
    rw [List.length_append, List.length_cons, List.length_drop, harray, kEventNameSize]
    omega

theorem reassembledBytes_length {event : ReceiveEvent} {data : List Byte} (h : reassembledBytes event = some data) :
    data.length ≤ event.ackedBits.length * kFragmentSize := by
  have hkeep : ∀ (l : List (Nat × List Byte)) (before after : List Byte), reassemble l before = some after →
      after.length = before.length := by
    intro l
    induction l with
    | nil => exact fun before after h => (Option.some.inj h) ▸ rfl
    | cons p l ih =>
      intro before after h
      rw [reassemble, List.foldlM_cons] at h
      obtain ⟨mid, hcopy, hrest⟩ := Option.bind_eq_some_iff.mp h
      rw [ih mid after hrest]
      rw [memcpy] at hcopy
      split at hcopy
      · cases hcopy
        simp
        omega
      · cases hcopy
  rw [reassembledBytes] at h
  obtain ⟨out, hout, hcopy⟩ := Option.bind_eq_some_iff.mp h
  have hlen := hkeep _ _ _ hout
  rw [List.length_replicate] at hlen
  rw [memcpy] at hcopy
  split at hcopy
  · rename_i hroom
    cases hcopy
    simp
    omega
  · cases hcopy

theorem handleReceivedPacket_array {eventName : List Byte} {event : ReceiveEvent}
    {parsed : List Byte × List Byte × List Byte} (h : handleReceivedPacket eventName event = some parsed)
    (harray : eventName.length = kEventNameSize)
    (hwidth : event.ackedBits.length < 2 ^ 17) : parsed.1.length = kEventNameSize := by
  rw [handleReceivedPacket] at h
  obtain ⟨data, hdata, hparse⟩ := Option.bind_eq_some_iff.mp h
  have hlen := reassembledBytes_length hdata
  rw [kFragmentSize] at hlen
  obtain ⟨array', name, payload, hparse', harray'⟩ := parseEvent_isSome data harray (by omega)
  cases Option.some.inj (hparse.symm.trans hparse')
  exact harray'

end fx
