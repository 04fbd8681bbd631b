import Citizen.Clones.NodeWrapper

open Bits rl MessageBuffer

theorem Bits.take_bitsOf {d e : List Byte} {pos n : Nat} (hd : n ≤ 8 * d.length) (he : pos + n ≤ 8 * e.length)
    (h : ∀ i < n, bitAt d i = bitAt e (pos + i)) : (bitsOf d).take n = ((bitsOf e).drop pos).take n := by
  apply List.ext_getElem
  · simp
    omega
  · intro i hi hi'
    have hin : i < n := by
      rw [List.length_take] at hi
      omega
    rw [List.getElem_take, List.getElem_take, List.getElem_drop, ← List.getD_eq_getElem _ false,
      ← List.getD_eq_getElem _ false, getD_bitsOf, getD_bitsOf]
    exact h i hin

namespace rl.MessageBuffer

variable {lengthHack : Bool} {b : MessageBuffer} {data : List Byte} {pos n : Nat}

theorem hackLength_idem (n : Nat) : hackLength lengthHack (hackLength lengthHack n) = hackLength lengthHack n := by
  by_cases h : n = 13 ∧ lengthHack = true
  · rw [hackLength, hackLength, if_pos h, if_neg (by omega)]
  · rw [show hackLength lengthHack n = n from if_neg h, show hackLength lengthHack n = n from if_neg h]

/-- Whole bytes that hold `n` bits hold the hacked length too. -/
theorem hackLength_le_bytes {size : Nat} (h : n ≤ 8 * size) : hackLength lengthHack n ≤ 8 * size := by
  rw [hackLength]
  split <;> omega

theorem hackLength_le_max (n : Nat) : hackLength lengthHack n ≤ max n 16 := by
  rw [hackLength]
  split <;> omega

/-- `ReadBits` is `ReadBits` of the hacked length. -/
theorem readBits_hackLength (out : List Byte) :
    b.readBits lengthHack out n = b.readBits lengthHack out (hackLength lengthHack n) := by
  by_cases h : n = 13 ∧ lengthHack = true
  · obtain ⟨rfl, rfl⟩ := h
    rfl
  · rw [show hackLength lengthHack n = n from if_neg h]

theorem At.readBit (h : b.At data pos) (hpos : pos < 2 ^ 31 - 1) :
    ∃ pos', b.readBit.2.At data pos' ∧ pos ≤ pos' ∧ pos' ≤ max pos (8 * data.length) := by
  by_cases hroom : pos < 8 * data.length
  · rw [readBit_spec h.curBit_eq (by omega) (by rwa [h.data_eq])]
    exact ⟨pos + 1, ⟨h.data_eq, rfl, h.maxBit_eq, h.small⟩, by omega, by omega⟩
  · have hidx : b.data.length ≤ b.curBit.toNat / 8 := by
      rw [h.data_eq, h.curBit_eq]
      omega
    rw [MessageBuffer.readBit, if_pos hidx]
    exact ⟨pos, h, Nat.le_refl _, Nat.le_max_left _ _⟩

/-- A number read near the end of a buffer: past it, the result is 0. -/
theorem At.read (h : b.At data pos) (hn : 1 ≤ hackLength lengthHack n) (hn32 : hackLength lengthHack n ≤ 32)
    (hpos : pos + hackLength lengthHack n < 2 ^ 31) :
    (b.read lengthHack n).2.2.At data (pos + hackLength lengthHack n) ∧
      (b.read lengthHack n).1.toNat < 2 ^ hackLength lengthHack n ∧
      (8 * data.length < pos + hackLength lengthHack n → (b.read lengthHack n).1 = 0) := by
  have hmax := h.maxBit_eq
  by_cases hfit : pos + hackLength lengthHack n ≤ 8 * data.length
  · obtain ⟨v, hread, hbits⟩ := readBitsSingle_spec h.curBit_eq hn hn32 hpos (by omega)
    rw [MessageBuffer.read, hread]
    refine ⟨⟨h.data_eq, by push_cast; rfl, h.maxBit_eq, h.small⟩, ?_, fun hshort => absurd hshort (by omega)⟩
    apply Nat.lt_pow_two_of_testBit
    intro i hi
    have hbit := hbits i
    rw [decide_eq_false (by omega), Bool.false_and] at hbit
    exact hbit
  · rw [MessageBuffer.read, readBitsSingle_short h.curBit_eq hpos (by omega)]
    exact ⟨⟨h.data_eq, by push_cast; rfl, h.maxBit_eq, h.small⟩, Nat.two_pow_pos _, fun _ => rfl⟩

/-- `ReadBits` never leaves its destination when that holds the hacked length; the destination gets the bits if
the input holds them, and stays otherwise. -/
theorem At.readBits_total (h : b.At data pos) (out : List Byte) (hpos : pos + hackLength lengthHack n < 2 ^ 31)
    (hout : hackLength lengthHack n ≤ 8 * out.length) :
    ∃ out' ok b', b.readBits lengthHack out n = some (out', ok, b') ∧ b'.data = data ∧ b'.maxBit = 8 * data.length ∧
      out'.length = out.length ∧
      (pos + hackLength lengthHack n ≤ 8 * data.length → ∀ i < n, bitAt out' i = bitAt data (pos + i)) ∧
      (8 * data.length < pos + hackLength lengthHack n → out' = out) := by
  have hmax := h.maxBit_eq
  have hle : n ≤ hackLength lengthHack n := le_hackLength n
  rw [readBits_hackLength]
  have hidem : hackLength lengthHack (hackLength lengthHack n) = hackLength lengthHack n := hackLength_idem n
  generalize hackLength lengthHack n = m at *
  rcases Nat.eq_zero_or_pos m with rfl | hm
  · exact ⟨out, true, b, readBits_zero b out, h.data_eq, hmax, rfl, fun _ i hi => absurd hi (by omega), fun _ => rfl⟩
  · by_cases hfit : pos + m ≤ 8 * data.length
    · obtain ⟨b', out', hread, hat, hsplice⟩ := h.readBits out hidem hfit hout
      refine ⟨out', true, b', hread, hat.data_eq, hat.maxBit_eq, hsplice.length_eq, fun _ i hi => ?_,
        fun hshort => absurd hshort (by omega)⟩
      have hbit := hsplice.inside (i := i) (by omega)
      rwa [Nat.zero_add] at hbit
    · exact ⟨out, false, b, readBits_short out h.curBit_eq hidem hm hpos (by omega), h.data_eq, hmax, rfl,
        fun hlong => absurd hlong hfit, fun _ => rfl⟩

theorem getCurrentBit_setCurrentBit {limit : Nat} (hmax : b.maxBit = limit) (hlimit : limit < 2 ^ 31) (bit : Nat) :
    (b.setCurrentBit bit).getCurrentBit = min bit limit := by
  have hwrap : int32 (min (bit : Int) ((limit : Int) % 2 ^ 32).toNat) = min bit limit := by
    rw [int32_eq] <;> omega
  rw [MessageBuffer.getCurrentBit, setCurrentBit, hmax, hwrap]
  dsimp only
  omega

end rl.MessageBuffer

namespace fx.sync

variable {kind : NodeKind}

theorem shouldRead_state (kind : NodeKind) (state : SyncParseState) :
    (shouldRead kind state).2 = { state with buffer := (shouldRead kind state).2.buffer } := by
  unfold shouldRead
  split_ifs <;> rfl

theorem shouldRead_at {state : SyncParseState} {data : List Byte} {pos : Nat} (h : state.buffer.At data pos)
    (hpos : pos ≤ 8 * data.length) (hsmall : data.length ≤ 2 ^ 27) :
    ∃ pos', (shouldRead kind state).2.buffer.At data pos' ∧ pos' ≤ 8 * data.length := by
  unfold shouldRead
  split_ifs
  · exact ⟨pos, h, hpos⟩
  · exact ⟨pos, h, hpos⟩
  · obtain ⟨pos', hread, _, hle⟩ := h.readBit (by omega)
    exact ⟨pos', hread, by omega⟩
  · exact ⟨pos, h, hpos⟩

/-- The data buffer never shrinks and holds 1024 bytes once a payload needs them. -/
theorem NodeWrapper.length_grow (data : List Byte) (size : Nat) :
    (NodeWrapper.grow data size).length = max data.length size := by
  unfold NodeWrapper.grow
  split
  · rw [List.length_append, List.length_replicate]
    omega
  · omega

/-- What a successful `Parse` does: the stamps, the length field and the cursor, and the payload bits if the
input holds as many as are copied. -/
structure Parsed (kind : NodeKind) (before : NodeWrapper) (call : ParseCall) (after : NodeWrapper)
    (cursor : Nat) : Prop where
  length_eq : after.length.toNat = call.announced kind
  timestamp_eq : after.timestamp = call.state.timestamp
  frameIndex_eq : after.frameIndex = call.state.frameIndex
  cursor_eq : cursor = min (call.payloadAt kind + call.announced kind) (8 * call.state.buffer.data.length)
  size_eq : after.data.length = max before.data.length (NodeWrapper.leftoverByteLength (call.announced kind))
  announced_lt : call.announced kind < 2 ^ 16
  copied : call.payloadAt kind + hackLength call.lengthHack (call.announced kind) ≤ 8 * call.state.buffer.data.length →
    call.announced kind ≤ 8 * after.data.length →
    ∀ i < call.announced kind, bitAt after.data i = bitAt call.state.buffer.data (call.payloadAt kind + i)
  stale : 8 * call.state.buffer.data.length < call.payloadAt kind + hackLength call.lengthHack (call.announced kind) →
    call.announced kind ≤ 8 * after.data.length →
    after.data = NodeWrapper.grow before.data (NodeWrapper.leftoverByteLength (call.announced kind))

theorem leftoverByteLength_le (length : Nat) : NodeWrapper.leftoverByteLength length ≤ 1024 := Nat.min_le_left _ _

theorem NodeWrapper.parse_spec {before : NodeWrapper} {call : ParseCall} (hsmall : call.Small)
    (hsize : before.data.length ≤ 2 ^ 27) (hreads : call.reads kind = true) :
    ∃ after state, before.parse kind call.lengthHack call.state = some (after, state) ∧
      Parsed kind before call after state.buffer.getCurrentBit := by
  obtain ⟨input, pos, hat, hinput, hpos⟩ := hsmall
  obtain ⟨start, hstart, hstartle⟩ := shouldRead_at hat hpos hinput
  have hstate := shouldRead_state kind call.state
  have hwidth : hackLength call.lengthHack 13 ≤ 16 ∧ 1 ≤ hackLength call.lengthHack 13 := by
    rw [hackLength]
    split <;> omega
  obtain ⟨hread, hlt, hshort⟩ := @At.read call.lengthHack _ _ _ 13 hstart (by omega) (by omega) (by omega)
  have hlength : call.announced kind = ((shouldRead kind call.state).2.buffer.read call.lengthHack 13).1.toNat := rfl
  have hend : call.payloadAt kind =
    ((shouldRead kind call.state).2.buffer.read call.lengthHack 13).2.2.getCurrentBit := rfl
  have hflag : (shouldRead kind call.state).1 = true := hreads
  unfold NodeWrapper.parse
  generalize shouldRead kind call.state = reading at *
  obtain ⟨flag, reading⟩ := reading
  dsimp only at hflag hstate hstart hread hlt hshort hlength hend
  subst hflag
  dsimp only
  generalize reading.buffer.read call.lengthHack 13 = result at *
  obtain ⟨length, ok, buffer⟩ := result
  dsimp only at hread hlt hshort hlength hend ⊢
  have hannounced : call.announced kind < 2 ^ 16 := by
    rw [hlength]
    exact lt_of_lt_of_le hlt (Nat.pow_le_pow_right (by omega) hwidth.1)
  rw [← hlength, ← hend]
  have hpayload : call.payloadAt kind = min (start + hackLength call.lengthHack 13) (8 * input.length) := by
    rw [hend, hread.getCurrentBit]
  have hzero : 8 * input.length < start + hackLength call.lengthHack 13 → call.announced kind = 0 := by
    intro h
    rw [hlength, hshort h]
    rfl
  have hwithin : call.payloadAt kind + call.announced kind < 2 ^ 32 := by
    have hinside : call.payloadAt kind ≤ 8 * input.length := hpayload ▸ Nat.min_le_right _ _
    clear hpayload hzero
    omega
  have hgrow := NodeWrapper.length_grow before.data (NodeWrapper.leftoverByteLength (call.announced kind))
  have hle := leftoverByteLength_le (call.announced kind)
  generalize hdata : NodeWrapper.grow before.data (NodeWrapper.leftoverByteLength (call.announced kind)) = data at *
  rw [Nat.mod_eq_of_lt (show 8 * data.length < 2 ^ 32 by omega)]
  have hbound : hackLength call.lengthHack (min (8 * data.length) (call.announced kind)) ≤
      max (min (8 * data.length) (call.announced kind)) 16 := hackLength_le_max _
  obtain ⟨out, done, buffer', hbulk, hdata', hmax', hout, hcopied, hstale⟩ :=
    @At.readBits_total call.lengthHack _ _ _ (min (8 * data.length) (call.announced kind)) hread data
      (by omega) (hackLength_le_bytes (Nat.min_le_left _ _))
  rw [hbulk]
  refine ⟨_, _, rfl, ?_⟩
  have hcursor := @getCurrentBit_setCurrentBit { buffer'.setCurrentBit (call.payloadAt kind) with
    curBit := kind.parse (buffer'.setCurrentBit (call.payloadAt kind)) } (8 * input.length)
    (by push_cast; exact hmax') (by omega) ((call.payloadAt kind + call.announced kind) % 2 ^ 32)
  have hdataeq : call.state.buffer.data = input := hat.data_eq
  refine ⟨hlength.symm,
    by rw [hstate], by rw [hstate], ?_, ?_, hannounced, fun hfit hroom => ?_, fun hfull hroom => ?_⟩
  · rw [hdataeq]
    refine hcursor.trans ?_
    rw [Nat.mod_eq_of_lt hwithin]
  · rw [hout]
    exact hgrow
  · rw [hdataeq] at hfit ⊢
    rw [hout] at hroom
    rw [Nat.min_eq_right hroom] at hcopied
    intro i hi
    have hwhole : start + hackLength call.lengthHack 13 ≤ 8 * input.length := by
      by_contra hlong
      rw [hzero (by omega)] at hi
      exact absurd hi (Nat.not_lt_zero i)
    rw [hpayload, Nat.min_eq_left hwhole] at hfit ⊢
    exact hcopied hfit i hi
  · rw [hdataeq] at hfull
    rw [hout] at hroom
    rw [Nat.min_eq_right hroom] at hstale
    rw [hdata]
    refine hstale (lt_of_lt_of_le hfull (Nat.add_le_add_right ?_ _))
    rw [hpayload]
    exact Nat.min_le_left _ _

theorem NodeWrapper.parse_skip (node : NodeWrapper) {call : ParseCall} (h : call.reads kind = false) :
    ∃ state, node.parse kind call.lengthHack call.state = some (node, state) := by
  have hflag : (shouldRead kind call.state).1 = false := h
  unfold NodeWrapper.parse
  generalize shouldRead kind call.state = reading at *
  obtain ⟨flag, state⟩ := reading
  subst hflag
  exact ⟨state, rfl⟩

/-- Syncs the node takes no part in leave it alone. -/
theorem NodeWrapper.parseAll_skip (node : NodeWrapper) {calls : List ParseCall}
    (h : ∀ call ∈ calls, call.reads kind = false) :
    node.parseAll kind calls = some node := by
  induction calls with
  | nil => rfl
  | cons call calls ih =>
    obtain ⟨state, hparse⟩ := node.parse_skip (h call (by simp))
    rw [NodeWrapper.parseAll, hparse]
    exact ih fun call hcall => h call (List.mem_cons_of_mem _ hcall)

theorem NodeWrapper.parse_size {node after : NodeWrapper} {call : ParseCall} {state : SyncParseState}
    (hsmall : call.Small) (hsize : node.data.length ≤ 2 ^ 27)
    (h : node.parse kind call.lengthHack call.state = some (after, state)) :
    after.data.length ≤ 2 ^ 27 := by
  cases hreads : call.reads kind with
  | false =>
    obtain ⟨state', hparse⟩ := node.parse_skip hreads
    cases h.symm.trans hparse
    exact hsize
  | true =>
    obtain ⟨after', state', hparse, hparsed⟩ := node.parse_spec hsmall hsize hreads
    cases h.symm.trans hparse
    have hle := leftoverByteLength_le (call.announced kind)
    rw [hparsed.size_eq]
    omega

theorem NodeWrapper.parseAll_size {node after : NodeWrapper} {calls : List ParseCall}
    (hsmall : ∀ call ∈ calls, call.Small) (hsize : node.data.length ≤ 2 ^ 27)
    (h : node.parseAll kind calls = some after) : after.data.length ≤ 2 ^ 27 := by
  induction calls generalizing node with
  | nil =>
    cases h
    exact hsize
  | cons call calls ih =>
    obtain ⟨⟨next, state⟩, hparse, hrest⟩ := Option.bind_eq_some_iff.mp h
    exact ih (fun call hcall => hsmall call (List.mem_cons_of_mem _ hcall))
      (NodeWrapper.parse_size (hsmall call (by simp)) hsize hparse) hrest

/-- The flag bit of a node that is written. -/
def flagBits (kind : NodeKind) (syncType : BitVec 32) : List Bool := if kind.id2 &&& syncType ≠ 0 then [true] else []

section Unparse

variable {node : NodeWrapper} {state : SyncUnparseState} {size : Nat} {bits : List Bool} {value : Bool}

theorem shouldWrite_written (h : state.buffer.Written size bits) (hwrites : (shouldWrite kind state value).1 = true)
    (hfit : bits.length + (flagBits kind state.syncType).length ≤ 8 * size) :
    (shouldWrite kind state value).2.buffer.Written size (bits ++ flagBits kind state.syncType) := by
  unfold shouldWrite flagBits at *
  split_ifs at hwrites hfit ⊢ with hid hobj hflag
  · obtain rfl : value = true := hwrites
    obtain ⟨b', hwrite, hwritten⟩ := h.writeBit true hfit
    rw [hwrite]
    exact hwritten
  · rwa [List.append_nil]

/-- `Unparse` of a payload the data buffer holds and the output has room for. -/
theorem NodeWrapper.unparse_written (h : state.buffer.Written size bits) (hlength : node.length.toNat < 2 ^ 16)
    (hwrites : (shouldWrite kind state (node.couldWrite kind state)).1 = true)
    (hfit : bits.length + (flagBits kind state.syncType).length + node.length.toNat ≤ 8 * size)
    (hdata : node.length.toNat ≤ 8 * node.data.length) :
    ∃ after, node.unparse kind state = some (true, after) ∧
      after.buffer.Written size
        (bits ++ flagBits kind state.syncType ++ (bitsOf node.data).take node.length.toNat) := by
  have hflag := shouldWrite_written h hwrites (by omega)
  have hint : node.length.toInt = node.length.toNat := BitVec.toInt_eq_toNat_of_lt (by omega)
  unfold NodeWrapper.unparse
  generalize shouldWrite kind state (node.couldWrite kind state) = writing at *
  obtain ⟨wrote, state'⟩ := writing
  subst hwrites
  obtain ⟨buffer, hwrite, hwritten⟩ := hflag.writeBits node.data (n := node.length.toNat)
    (by rw [List.length_append]; exact hfit) hdata
  dsimp only at hwrite ⊢
  rw [hint, hwrite]
  exact ⟨_, rfl, hwritten⟩

/-- `Unparse` of a payload longer than the data buffer reads outside it. -/
theorem NodeWrapper.unparse_outside (h : state.buffer.Written size bits) (hlength : node.length.toNat < 2 ^ 16)
    (hwrites : (shouldWrite kind state (node.couldWrite kind state)).1 = true)
    (hfit : bits.length + (flagBits kind state.syncType).length + node.length.toNat ≤ 8 * size)
    (hdata : 8 * node.data.length < node.length.toNat) : node.unparse kind state = none := by
  have hflag := shouldWrite_written h hwrites (by omega)
  have hint : node.length.toInt = node.length.toNat := BitVec.toInt_eq_toNat_of_lt (by omega)
  unfold NodeWrapper.unparse
  generalize shouldWrite kind state (node.couldWrite kind state) = writing at *
  obtain ⟨wrote, state'⟩ := writing
  subst hwrites
  dsimp only at hflag ⊢
  have hsmall := hflag.small
  have hmax := hflag.maxBit_eq
  have hcur := hflag.curBit_eq
  rw [List.length_append] at hcur
  have hwrap : int32 (state'.buffer.curBit + (node.length.toNat : Int)) = state'.buffer.curBit + node.length.toNat :=
    int32_eq (by omega) (by omega)
  rw [hint, MessageBuffer.writeBits, hwrap, if_neg (by omega), copyBits_outside _ _ hdata]
  rfl

theorem NodeWrapper.unparse_skip (hwrites : (shouldWrite kind state (node.couldWrite kind state)).1 = false) :
    ∃ after, node.unparse kind state = some (false, after) := by
  unfold NodeWrapper.unparse
  generalize shouldWrite kind state (node.couldWrite kind state) = writing at *
  obtain ⟨wrote, state'⟩ := writing
  subst hwrites
  exact ⟨state', rfl⟩

/-- `Unparse` returns what `shouldWrite` decides. -/
theorem NodeWrapper.unparse_fst {wrote : Bool} {after : SyncUnparseState}
    (h : node.unparse kind state = some (wrote, after)) :
    wrote = (shouldWrite kind state (node.couldWrite kind state)).1 := by
  unfold NodeWrapper.unparse at h
  generalize shouldWrite kind state (node.couldWrite kind state) = writing at *
  obtain ⟨wrote', state'⟩ := writing
  cases wrote' with
  | false =>
    cases h
    rfl
  | true =>
    obtain ⟨result, _, hresult⟩ := Option.bind_eq_some_iff.mp h
    cases hresult
    rfl

end Unparse

/-- The latest successful `Parse`, of `call`, and a later `Unparse` are exact: the cursor is after the announced
payload, no access is outside a buffer, and a true return has appended the flag and the payload. -/
structure Relayed (kind : NodeKind) (before : NodeWrapper) (call : ParseCall) (later : List ParseCall)
    (state : SyncUnparseState) (size : Nat) (bits : List Bool) : Prop where
  parsed : ∃ after next, before.parse kind call.lengthHack call.state = some (after, next) ∧
    next.buffer.getCurrentBit = call.payloadAt kind + call.announced kind
  unparsed : ∃ node wrote after, before.parseAll kind (call :: later) = some node ∧
    node.unparse kind state = some (wrote, after) ∧
    (wrote = true → (call.payload kind).length = call.announced kind ∧
      after.buffer.Written size (bits ++ flagBits kind state.syncType ++ call.payload kind))

/-- `Unparse` takes its write branch for a node last parsed by `call`. -/
def ParseCall.writes (kind : NodeKind) (call : ParseCall) (before : NodeWrapper) (state : SyncUnparseState) : Bool :=
  (shouldWrite kind state (NodeWrapper.couldWrite kind { before with
    length := BitVec.ofNat 32 (call.announced kind)
    timestamp := call.state.timestamp
    frameIndex := call.state.frameIndex } state)).1

/-- The input holds the payload. If the node is written, the data buffer and the output hold it too, and a payload
of 13 bits under the length hack is followed by three more bits, or the data buffer held it already. -/
structure RelayFits (kind : NodeKind) (before : NodeWrapper) (call : ParseCall) (state : SyncUnparseState) (size : Nat)
    (bits : List Bool) : Prop where
  input : call.payloadAt kind + call.announced kind ≤ 8 * call.state.buffer.data.length
  data : call.writes kind before state = true → call.announced kind ≤ 8 * max before.data.length 1024
  output : call.writes kind before state = true →
    bits.length + (flagBits kind state.syncType).length + call.announced kind ≤ 8 * size
  hack : call.writes kind before state = true → call.lengthHack = true → call.announced kind = 13 →
    call.payloadAt kind + 16 ≤ 8 * call.state.buffer.data.length ∨
      (bitsOf (NodeWrapper.grow before.data 2)).take 13 = call.payload kind

namespace Parsed

variable {before after : NodeWrapper} {call : ParseCall} {cursor : Nat}

/-- What `Unparse` decides after `Parse` is decided by the input and the stamps. -/
theorem writes_eq (h : Parsed kind before call after cursor) (state : SyncUnparseState) :
    (shouldWrite kind state (after.couldWrite kind state)).1 = call.writes kind before state := by
  have hlength : after.length = BitVec.ofNat 32 (call.announced kind) := by
    rw [← h.length_eq, BitVec.ofNat_toNat, BitVec.setWidth_eq]
  rw [ParseCall.writes, NodeWrapper.couldWrite, NodeWrapper.couldWrite, hlength, h.timestamp_eq, h.frameIndex_eq]

/-- The data buffer holds the payload if it fits in 1024 bytes or in the old buffer. -/
theorem data_holds_iff (h : Parsed kind before call after cursor) :
    call.announced kind ≤ 8 * after.data.length ↔ call.announced kind ≤ 8 * max before.data.length 1024 := by
  rw [h.size_eq, NodeWrapper.leftoverByteLength]
  split <;> omega

/-- The data buffer holds the received bits. -/
theorem take_eq (h : Parsed kind before call after cursor)
    (hinput : call.payloadAt kind + call.announced kind ≤ 8 * call.state.buffer.data.length)
    (hdata : call.announced kind ≤ 8 * after.data.length)
    (hhack : call.lengthHack = true → call.announced kind = 13 →
      call.payloadAt kind + 16 ≤ 8 * call.state.buffer.data.length ∨
        (bitsOf (NodeWrapper.grow before.data 2)).take 13 = call.payload kind) :
    (bitsOf after.data).take (call.announced kind) = call.payload kind := by
  by_cases hlong : call.payloadAt kind + hackLength call.lengthHack (call.announced kind) ≤
      8 * call.state.buffer.data.length
  · exact take_bitsOf hdata hinput (h.copied hlong hdata)
  · have hhacked : call.announced kind = 13 ∧ call.lengthHack = true := by
      by_contra hplain
      rw [hackLength, if_neg hplain] at hlong
      exact hlong hinput
    obtain ⟨h13, hhacked⟩ := hhacked
    have hstale := h.stale (by omega) hdata
    rw [hackLength, if_pos ⟨h13, hhacked⟩] at hlong
    obtain hroom | hheld := hhack hhacked h13
    · exact absurd hroom hlong
    · rw [hstale, h13]
      exact hheld

end Parsed

theorem Written_unique {b : MessageBuffer} {size : Nat} {bits bits' : List Bool} (h : b.Written size bits)
    (h' : b.Written size bits') : bits = bits' := by
  have hlen : bits.length = bits'.length := by
    have hcur := h.curBit_eq.symm.trans h'.curBit_eq
    omega
  rw [h.eq_take, h'.eq_take, hlen]

section

variable {before : NodeWrapper} {call : ParseCall} {later : List ParseCall} {state : SyncUnparseState} {size : Nat}
  {bits : List Bool}

theorem length_payload (h : call.payloadAt kind + call.announced kind ≤ 8 * call.state.buffer.data.length) :
    (call.payload kind).length = call.announced kind := by
  rw [ParseCall.payload, List.length_take, List.length_drop, length_bitsOf]
  omega

theorem relayed_of_fits (hcall : call.Small) (hreads : call.reads kind = true)
    (hlater : ∀ c ∈ later, c.reads kind = false) (hsize : before.data.length ≤ 2 ^ 27)
    (hout : state.buffer.Written size bits) (h : RelayFits kind before call state size bits) :
    Relayed kind before call later state size bits := by
  obtain ⟨after, next, hparse, hparsed⟩ := before.parse_spec hcall hsize hreads
  have hrun : before.parseAll kind (call :: later) = some after := by
    rw [NodeWrapper.parseAll, hparse]
    exact after.parseAll_skip hlater
  refine ⟨⟨after, next, hparse, ?_⟩, ?_⟩
  · rw [hparsed.cursor_eq]
    exact Nat.min_eq_left h.input
  · cases hwrites : call.writes kind before state with
    | false =>
      obtain ⟨done, hdone⟩ := NodeWrapper.unparse_skip ((hparsed.writes_eq state).trans hwrites)
      exact ⟨after, false, done, hrun, hdone, fun hwrote => absurd hwrote Bool.false_ne_true⟩
    | true =>
      have hdata := hparsed.data_holds_iff.mpr (h.data hwrites)
      have hlt := hparsed.announced_lt
      have hlength := hparsed.length_eq
      obtain ⟨done, hdone, hwritten⟩ := NodeWrapper.unparse_written hout (by omega)
        ((hparsed.writes_eq state).trans hwrites) (by rw [hlength]; exact h.output hwrites) (by omega)
      refine ⟨after, true, done, hrun, hdone, fun _ => ⟨length_payload h.input, ?_⟩⟩
      rw [hlength, hparsed.take_eq h.input hdata (h.hack hwrites)] at hwritten
      exact hwritten

/-- The cursor of an exact `Parse` is inside the input. -/
theorem Relayed.input (hcall : call.Small) (hreads : call.reads kind = true) (hsize : before.data.length ≤ 2 ^ 27)
    (h : Relayed kind before call later state size bits) :
    call.payloadAt kind + call.announced kind ≤ 8 * call.state.buffer.data.length := by
  obtain ⟨after, next, hparse, hparsed⟩ := before.parse_spec hcall hsize hreads
  obtain ⟨after', next', hparse', hcursor⟩ := h.parsed
  cases hparse.symm.trans hparse'
  rw [hparsed.cursor_eq] at hcursor
  omega

theorem fits_of_relayed (hcall : call.Small) (hreads : call.reads kind = true)
    (hlater : ∀ c ∈ later, c.reads kind = false) (hsize : before.data.length ≤ 2 ^ 27)
    (hout : state.buffer.Written size bits) (h : Relayed kind before call later state size bits) :
    RelayFits kind before call state size bits := by
  have hinput := h.input hcall hreads hsize
  obtain ⟨after, next, hparse, hparsed⟩ := before.parse_spec hcall hsize hreads
  have hrun : before.parseAll kind (call :: later) = some after := by
    rw [NodeWrapper.parseAll, hparse]
    exact after.parseAll_skip hlater
  obtain ⟨node, wrote, done, hrun', hdone, hexact⟩ := h.unparsed
  cases hrun.symm.trans hrun'
  have hwrote := (NodeWrapper.unparse_fst hdone).trans (hparsed.writes_eq state)
  have hlt := hparsed.announced_lt
  have hlength := hparsed.length_eq
  have hfit : call.writes kind before state = true →
      bits.length + (flagBits kind state.syncType).length + call.announced kind ≤ 8 * size := by
    intro hwrites
    obtain ⟨hpayload, hwritten⟩ := hexact (hwrote.trans hwrites)
    have hfits := hwritten.fits
    rwa [List.length_append, List.length_append, hpayload] at hfits
  have hheld : call.writes kind before state = true → call.announced kind ≤ 8 * after.data.length := by
    intro hwrites
    by_contra hlong
    rw [NodeWrapper.unparse_outside hout (by omega) ((hparsed.writes_eq state).trans hwrites)
      (by rw [hlength]; exact hfit hwrites) (by omega)] at hdone
    cases hdone
  refine ⟨hinput, fun hwrites => hparsed.data_holds_iff.mp (hheld hwrites), hfit, fun hwrites hhacked h13 => ?_⟩
  by_cases hroom : call.payloadAt kind + 16 ≤ 8 * call.state.buffer.data.length
  · exact .inl hroom
  · -- `ReadBits` has failed, and `Unparse` writes what the data buffer held
    right
    have hstale := hparsed.stale (by rw [hackLength, if_pos ⟨h13, hhacked⟩]; omega) (hheld hwrites)
    obtain ⟨done', hdone', hwritten⟩ := NodeWrapper.unparse_written hout (by omega)
      ((hparsed.writes_eq state).trans hwrites) (by rw [hlength]; exact hfit hwrites)
        (by rw [hlength]; exact hheld hwrites)
    cases hdone.symm.trans hdone'
    have hsame := Written_unique hwritten (hexact rfl).2
    rw [hlength, hstale, h13] at hsame
    exact List.append_cancel_left hsame

/-- A node is relayed exactly iff the payload fits everywhere. `call` is the last `Parse` that reads the node; the
calls before it may be any small ones, from a new node on, and those after it do not read it. -/
theorem relayed_iff {timestamp : BitVec 32} {frameIndex : Nat} {earlier : List ParseCall}
    (hearlier : ∀ c ∈ earlier, c.Small)
    (hbefore : (NodeWrapper.new kind timestamp frameIndex).parseAll kind earlier = some before)
    (hcall : call.Small) (hreads : call.reads kind = true) (hlater : ∀ c ∈ later, c.reads kind = false)
    (hout : state.buffer.Written size bits) :
    Relayed kind before call later state size bits ↔ RelayFits kind before call state size bits := by
  have hnew : (NodeWrapper.new kind timestamp frameIndex).data.length ≤ 2 ^ 27 := by
    rw [NodeWrapper.new, List.length_replicate]
    exact kind.Length_le
  have hsize := NodeWrapper.parseAll_size hearlier hnew hbefore
  exact ⟨fits_of_relayed hcall hreads hlater hsize hout, relayed_of_fits hcall hreads hlater hsize hout⟩

end

/-- `NodeWrapper<NodeIds<127, 127, 0>, CGlobalFlagsDataNode, 2>`. -/
def globalFlagsKind : NodeKind := ⟨127, 127, 0, true, 2, by decide, fun b => b.curBit⟩

/-- A sync received at frame 5. -/
def syncCall (data : List Byte) : ParseCall := ⟨false, ofBytes data, 2, 1, 0, 0, 5⟩

theorem syncCall_small {data : List Byte} (h : data.length ≤ 2 ^ 27) : (syncCall data).Small :=
  ⟨data, 0, ofBytes_at (by omega), h, Nat.zero_le _⟩

/-- A payload of eight bits is relayed into an empty output of four bytes. -/
theorem relayed_iff_eight :
    Relayed globalFlagsKind (.new globalFlagsKind 0 0) (syncCall [0x80, 0x22, 0xFC])
      [] ⟨ofSize 4, 2, 1, 0, 0, false⟩ 4 [] :=
  (relayed_iff (show ∀ c ∈ ([] : List ParseCall), c.Small by simp) rfl (syncCall_small (by decide))
    (by decide) (by simp) (ofSize_written (by decide))).mpr ⟨by decide, by decide, by decide, by decide⟩

/-- Eight bits are announced and two follow: they are not received, and the node is relayed nevertheless. -/
theorem relayed_truncated :
    ¬ Relayed globalFlagsKind (.new globalFlagsKind 0 0) (syncCall [0x80, 0x22])
      [] ⟨ofSize 4, 2, 1, 0, 0, false⟩ 4 [] := by
  intro h
  have hinput := h.input (syncCall_small (by decide)) (by decide) (by decide)
  exact absurd hinput (by decide)

end fx.sync
