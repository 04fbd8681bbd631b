import Citizen.Mumble.Audience

open Bits
open Transition

namespace mumble

namespace Pds

variable {α β : Type} {r : Pds → α × Pds} {s : α → Pds → β × Pds} {a : α} {b : β} {rest : List Byte}
  {i k l n fuel : Nat}

/-- A reader takes a value from the first bytes that are left, and from no others. -/
structure Reads (r : Pds → α × Pds) (rest : List Byte) (a : α) (k : Nat) : Prop where
  le : k ≤ rest.length
  take : ∀ (pds : Pds) (m : Nat), k ≤ m → pds.rest = rest.take m → (r pds).1 = a ∧
    (r pds).2.rest = (rest.take m).drop k

theorem Reads.whole {pds : Pds} (h : Reads r rest a k) (hrest : pds.rest = rest) :
    (r pds).1 = a ∧ (r pds).2.rest = rest.drop k := by
  obtain ⟨hfst, hsnd⟩ := h.take pds rest.length h.le (hrest.trans List.take_length.symm)
  rw [List.take_length] at hsnd
  exact ⟨hfst, hsnd⟩

theorem Reads.again {pds : Pds} (h : Reads r rest a k) (hrest : pds.rest = rest.take (k + l)) :
    (r pds).1 = a ∧ (r pds).2.rest = (rest.drop k).take l := by
  obtain ⟨hfst, hsnd⟩ := h.take pds (k + l) (Nat.le_add_right k l) hrest
  rw [List.drop_take, Nat.add_sub_cancel_left] at hsnd
  exact ⟨hfst, hsnd⟩

theorem Reads.bind (h : Reads r rest a k) (h' : Reads (s a) (rest.drop k) b l) :
    Reads (fun pds => s (r pds).1 (r pds).2) rest b (k + l) := by
  refine ⟨?_, fun pds m hm hrest => ?_⟩
  · have hle := h'.le
    rw [List.length_drop] at hle
    have := h.le
    omega
  · obtain ⟨hfst, hsnd⟩ := h.take pds m (by omega) hrest
    have htake : (r pds).2.rest = (rest.drop k).take (m - k) := by rw [hsnd, List.drop_take]
    obtain ⟨hfst', hsnd'⟩ := h'.take (r pds).2 (m - k) (by omega) htake
    rw [hfst]
    refine ⟨hfst', ?_⟩
    rw [hsnd', ← List.drop_drop, ← hsnd, htake]

theorem exists_reads_bind (h : ∃ a k, Reads r rest a k) (h' : ∀ a rest, ∃ b l, Reads (s a) rest b l) :
    ∃ b l, Reads (fun pds => s (r pds).1 (r pds).2) rest b l := by
  obtain ⟨a, k, hreads⟩ := h
  obtain ⟨b, l, hreads'⟩ := h' a (rest.drop k)
  exact ⟨b, k + l, hreads.bind hreads'⟩

theorem Reads.map (h : Reads r rest a k) (f : α → β) : Reads (fun pds => (r pds).map f id) rest (f a) k :=
  ⟨h.le, fun pds m hm hrest => ⟨congrArg f (h.take pds m hm hrest).1, (h.take pds m hm hrest).2⟩⟩

theorem reads_pure (a : α) (rest : List Byte) : Reads (fun pds => (a, pds)) rest a 0 :=
  ⟨Nat.zero_le _, fun _ _ _ hrest => ⟨rfl, hrest⟩⟩

theorem reads_next (rest : List Byte) : Reads next rest (rest.headD 0).toNat (min 1 rest.length) := by
  refine ⟨Nat.min_le_right _ _, fun pds m hm hrest => ?_⟩
  unfold next
  rw [hrest]
  cases rest with
  | nil => simp
  | cons b rest =>
    obtain ⟨m, rfl⟩ := Nat.exists_eq_succ_of_ne_zero (by rw [List.length_cons] at hm; omega : m ≠ 0)
    simp

theorem exists_reads_shiftIn (n i : Nat) (rest : List Byte) : ∃ a k, Reads (shiftIn n i) rest a k := by
  induction n generalizing i rest with
  | zero => exact ⟨i, 0, reads_pure i rest⟩
  | succ n ih =>
    exact exists_reads_bind ⟨_, _, reads_next rest⟩ fun b rest => ih (i <<< 8 ||| b) rest

theorem exists_reads_ite {r' : Pds → α × Pds} (p : Prop) [Decidable p] (h : ∃ a k, Reads r rest a k)
    (h' : ∃ a k, Reads r' rest a k) : ∃ a k, Reads (fun pds => if p then r pds else r' pds) rest a k := by
  by_cases hp : p
  · simpa only [if_pos hp] using h
  · simpa only [if_neg hp] using h'

theorem exists_reads_get_numval_fuel (fuel : Nat) (rest : List Byte) :
    ∃ a k, Reads (get_numval_fuel fuel) rest a k := by
  induction fuel generalizing rest with
  | zero => exact ⟨0, 0, reads_pure 0 rest⟩
  | succ fuel ih =>
    have hshift : ∀ n i rest, ∃ a k, Reads (fun pds => (shiftIn n i pds).map (BitVec.ofNat 64) id) rest a k := by
      intro n i rest
      obtain ⟨a, k, hreads⟩ := exists_reads_shiftIn n i rest
      exact ⟨_, k, hreads.map _⟩
    have hsign : ∀ rest, ∃ a k, Reads (fun pds => (get_numval_fuel fuel pds).map (~~~·) id) rest a k := by
      intro rest
      obtain ⟨a, k, hreads⟩ := ih rest
      exact ⟨_, k, hreads.map _⟩
    have hpure : ∀ (value : BitVec 64) rest, ∃ a k, Reads (fun pds => (value, pds)) rest a k :=
      fun value rest => ⟨value, 0, reads_pure value rest⟩
    have hbody := fun v rest => exists_reads_ite (v &&& 0x80 = 0x00) (hpure (BitVec.ofNat 64 (v &&& 0x7F)) rest) <|
      exists_reads_ite (v &&& 0xC0 = 0x80) (hshift 1 (v &&& 0x3F) rest) <|
      exists_reads_ite (v &&& 0xF0 = 0xF0)
        (exists_reads_ite (v &&& 0xFC = 0xF0) (hshift 4 0 rest) <|
          exists_reads_ite (v &&& 0xFC = 0xF4) (hshift 8 0 rest) <|
          exists_reads_ite (v &&& 0xFC = 0xF8) (hsign rest) <|
          exists_reads_ite (v &&& 0xFC = 0xFC) (hpure (~~~BitVec.ofNat 64 (v &&& 0x03)) rest) (hpure 0 rest)) <|
      exists_reads_ite (v &&& 0xF0 = 0xE0) (hshift 3 (v &&& 0x0F) rest) <|
      exists_reads_ite (v &&& 0xE0 = 0xC0) (hshift 2 (v &&& 0x1F) rest) (hpure 0 rest)
    exact exists_reads_bind ⟨_, _, reads_next rest⟩ hbody

/-- More fuel than bytes makes no difference. -/
theorem get_numval_fuel_succ {fuel : Nat} {pds : Pds} (h : pds.rest.length < fuel) :
    get_numval_fuel (fuel + 1) pds = get_numval_fuel fuel pds := by
  induction fuel generalizing pds with
  | zero => omega
  | succ fuel ih =>
    cases hrest : pds.rest with
    | nil => simp [get_numval_fuel, next, hrest]
    | cons b rest =>
      have hlen : pds.next.2.rest.length < fuel := by
        rw [hrest, List.length_cons] at h
        simp only [next, hrest]
        omega
      rw [get_numval_fuel, get_numval_fuel]
      dsimp only
      rw [ih hlen]

theorem get_numval_fuel_eq {pds : Pds} (h : pds.rest.length < fuel) : get_numval_fuel fuel pds = get_numval pds := by
  unfold get_numval
  induction fuel with
  | zero => omega
  | succ fuel ih =>
    by_cases heq : fuel = pds.rest.length
    · rw [heq]
    · rw [get_numval_fuel_succ (by omega), ih (by omega)]

theorem exists_reads_get_numval (rest : List Byte) : ∃ a k, Reads get_numval rest a k := by
  obtain ⟨a, k, hreads⟩ := exists_reads_get_numval_fuel (rest.length + 1) rest
  refine ⟨a, k, hreads.le, fun pds m hm hrest => ?_⟩
  have hfuel : pds.rest.length < rest.length + 1 := by
    rw [hrest, List.length_take]
    omega
  rw [← get_numval_fuel_eq hfuel]
  exact hreads.take pds m hm hrest

/-- What is read again from the bytes that were read is read to their end. -/
def EndsAgain (r : Pds → Pds) (rest : List Byte) : Prop :=
  ∃ k ≤ rest.length, (∀ pds : Pds, pds.rest = rest → (r pds).rest = rest.drop k) ∧
    ∀ pds : Pds, pds.rest = rest.take k → (r pds).rest = []

theorem Reads.endsAgain {t : α → Pds → Pds} (h : Reads r rest a k) (h' : EndsAgain (t a) (rest.drop k)) :
    EndsAgain (fun pds => t (r pds).1 (r pds).2) rest := by
  obtain ⟨l, hl, hwhole, hagain⟩ := h'
  rw [List.length_drop] at hl
  have hk := h.le
  refine ⟨k + l, by omega, fun pds hrest => ?_, fun pds hrest => ?_⟩
  · obtain ⟨hfst, hsnd⟩ := h.whole hrest
    dsimp only
    rw [hfst, hwhole _ hsnd, List.drop_drop]
  · obtain ⟨hfst, hsnd⟩ := h.again hrest
    dsimp only
    rw [hfst]
    exact hagain _ hsnd

theorem endsAgain_done (rest : List Byte) : EndsAgain (fun pds => pds) rest :=
  ⟨0, Nat.zero_le _, fun _ hrest => hrest, fun _ hrest => hrest⟩

theorem skip_of_le {pds : Pds} (h : n ≤ pds.rest.length) : (pds.skip n).1 = n ∧
    (pds.skip n).2.rest = pds.rest.drop n := by
  unfold skip
  rw [if_pos h]
  exact ⟨rfl, rfl⟩

theorem skip_of_lt {pds : Pds} (h : pds.rest.length < n) : (pds.skip n).1 = 0 ∧ (pds.skip n).2.rest = pds.rest := by
  unfold skip
  rw [if_neg (by omega)]
  exact ⟨rfl, rfl⟩

theorem reads_skip (hn : n ≤ rest.length) : Reads (fun pds => pds.skip n) rest n n := by
  refine ⟨hn, fun pds m hm hrest => ?_⟩
  have hle : n ≤ pds.rest.length := by
    rw [hrest, List.length_take]
    omega
  rw [← hrest]
  exact skip_of_le hle

/-- A skip that goes too far skips nothing, and does so again when nothing is left. -/
theorem endsAgain_skip (n : Nat) (rest : List Byte) : EndsAgain (fun pds => (pds.skip n).2) rest := by
  by_cases hn : n ≤ rest.length
  · exact (reads_skip hn).endsAgain (t := fun _ pds => pds) (endsAgain_done _)
  · refine ⟨0, Nat.zero_le _, fun pds hrest => ?_, fun pds hrest => ?_⟩
    · dsimp only
      rw [(skip_of_lt (by rw [hrest]; omega)).2, hrest, List.drop_zero]
    · rw [List.take_zero] at hrest
      dsimp only
      rw [(skip_of_lt (by rw [hrest, List.length_nil]; omega)).2, hrest]

end Pds

open Pds

theorem skipFrames_succ (fuel : Nat) (pds : Pds) : skipFrames (fuel + 1) pds =
    if pds.next.1 &&& 0x80 ≠ 0 ∧ (pds.next.2.skip (pds.next.1 &&& 0x7f)).1 > 0 then
      skipFrames fuel (pds.next.2.skip (pds.next.1 &&& 0x7f)).2
    else (pds.next.2.skip (pds.next.1 &&& 0x7f)).2 := rfl

/-- The frames of a packet, read again from the bytes that they took. -/
theorem endsAgain_skipFrames (rest : List Byte) : ∃ k ≤ rest.length,
    (∀ (pds : Pds) fuel, pds.rest = rest → rest.length < fuel → (skipFrames fuel pds).rest = rest.drop k) ∧
      ∀ (pds : Pds) fuel, pds.rest = rest.take k → k < fuel → (skipFrames fuel pds).rest = [] := by
  induction hlen : rest.length using Nat.strong_induction_on generalizing rest with
  | _ len ih =>
  subst hlen
  have hnext := reads_next rest
  generalize min 1 rest.length = j at hnext
  generalize (rest.headD 0).toNat = counter at hnext
  have hj := hnext.le
  have hlenj : (rest.drop j).length = rest.length - j := List.length_drop
  by_cases hskip : counter &&& 0x7f ≤ rest.length - j
  · have hskipped := reads_skip (hlenj ▸ hskip : counter &&& 0x7f ≤ (rest.drop j).length)
    by_cases hmore : counter &&& 0x80 ≠ 0 ∧ counter &&& 0x7f > 0
    · -- Another frame follows.
      have hless : ((rest.drop j).drop (counter &&& 0x7f)).length = rest.length - j - (counter &&& 0x7f) := by
        rw [List.length_drop, hlenj]
      obtain ⟨l, hl, hwhole, hagain⟩ := ih _ (by omega) ((rest.drop j).drop (counter &&& 0x7f)) rfl
      refine ⟨j + ((counter &&& 0x7f) + l), by omega, fun pds fuel hrest hfuel => ?_, fun pds fuel hrest hfuel => ?_⟩
      all_goals obtain ⟨fuel, rfl⟩ := Nat.exists_eq_succ_of_ne_zero (by omega : fuel ≠ 0)
      · obtain ⟨hfst, hsnd⟩ := hnext.whole hrest
        obtain ⟨hcount, hafter⟩ := hskipped.whole hsnd
        rw [skipFrames_succ, hfst, hcount, if_pos hmore, hwhole _ fuel hafter (by omega), List.drop_drop,
          List.drop_drop]
      · obtain ⟨hfst, hsnd⟩ := hnext.again hrest
        obtain ⟨hcount, hafter⟩ := hskipped.again hsnd
        rw [skipFrames_succ, hfst, hcount, if_pos hmore]
        exact hagain _ fuel hafter (by omega)
    · refine ⟨j + ((counter &&& 0x7f) + 0), by omega, fun pds fuel hrest hfuel => ?_, fun pds fuel hrest hfuel => ?_⟩
      all_goals obtain ⟨fuel, rfl⟩ := Nat.exists_eq_succ_of_ne_zero (by omega : fuel ≠ 0)
      · obtain ⟨hfst, hsnd⟩ := hnext.whole hrest
        obtain ⟨hcount, hafter⟩ := hskipped.whole hsnd
        rw [skipFrames_succ, hfst, hcount, if_neg hmore, hafter, List.drop_drop]
        rfl
      · obtain ⟨hfst, hsnd⟩ := hnext.again hrest
        obtain ⟨hcount, hafter⟩ := hskipped.again hsnd
        rw [skipFrames_succ, hfst, hcount, if_neg hmore, hafter, List.take_zero]
  · -- The last frame is longer than what is left.
    refine ⟨j + 0, by omega, fun pds fuel hrest hfuel => ?_, fun pds fuel hrest hfuel => ?_⟩
    all_goals obtain ⟨fuel, rfl⟩ := Nat.exists_eq_succ_of_ne_zero (by omega : fuel ≠ 0)
    · obtain ⟨hfst, hsnd⟩ := hnext.whole hrest
      have hlt : pds.next.2.rest.length < counter &&& 0x7f := by
        rw [hsnd, hlenj]
        omega
      obtain ⟨hcount, hafter⟩ := skip_of_lt hlt
      rw [skipFrames_succ, hfst, hcount, if_neg (by omega), hafter, hsnd]
      rfl
    · obtain ⟨hfst, hsnd⟩ := hnext.again hrest
      rw [List.take_zero] at hsnd
      have hlt : pds.next.2.rest.length < counter &&& 0x7f := by
        rw [hsnd, List.length_nil]
        omega
      obtain ⟨hcount, hafter⟩ := skip_of_lt hlt
      rw [skipFrames_succ, hfst, hcount, if_neg (by omega), hafter, hsnd]

theorem endsAgain_skipVoice (type : Nat) (rest : List Byte) : EndsAgain (skipVoice type) rest := by
  obtain ⟨_, _, hsequence⟩ := exists_reads_get_numval rest
  refine hsequence.endsAgain (t := fun _ pdi => if type >>> 5 ≠ UDPVoiceOpus then skipFrames (pdi.rest.length + 1) pdi
    else (pdi.get_numval.2.skip (pdi.get_numval.1.toNat &&& 0x1fff)).2) ?_
  by_cases htype : type >>> 5 ≠ UDPVoiceOpus
  · simp only [if_pos htype]
    obtain ⟨k, hk, hwhole, hagain⟩ := endsAgain_skipFrames (rest.drop _)
    refine ⟨k, hk, fun pds hrest => hwhole pds _ hrest ?_, fun pds hrest => hagain pds _ hrest ?_⟩
    · rw [hrest]
      exact Nat.lt_succ_self _
    · rw [hrest, List.length_take]
      omega
  · simp only [if_neg htype]
    obtain ⟨size, _, hsize⟩ := exists_reads_get_numval (rest.drop _)
    exact hsize.endsAgain (t := fun size pdi => (pdi.skip (size.toNat &&& 0x1fff)).2) (endsAgain_skip _ _)

/-- A packet without its positional information has none. -/
theorem poslen_strip (b : Byte) (rest : List Byte) : poslen (b :: rest) ≤ rest.length ∧
    poslen (b :: rest.take (rest.length - poslen (b :: rest))) = 0 := by
  obtain ⟨k, hk, hwhole, hagain⟩ := endsAgain_skipVoice (b.toNat &&& 0xe0) rest
  have hlen : poslen (b :: rest) = rest.length - k := by
    unfold poslen
    rw [List.headD_cons, List.drop_one, List.tail_cons, hwhole _ rfl, List.length_drop]
  have hkept : rest.length - poslen (b :: rest) = k := by omega
  refine ⟨by omega, ?_⟩
  rw [hkept]
  unfold poslen
  rw [List.headD_cons, List.drop_one, List.tail_cons, hagain _ rfl, List.length_nil]

/-- The bytes of a session. -/
def sessionBytes (sessionId : Nat) : List Byte := (numval (BitVec.ofNat 64 sessionId)).map (BitVec.ofNat 8)

theorem get_numval_session (sessionId : Nat) (tail : List Byte) :
    (create (sessionBytes sessionId ++ tail)).get_numval =
      (BitVec.ofNat 64 sessionId, ⟨sessionBytes sessionId, tail, 0, true⟩) :=
        get_numval_append (BitVec.ofNat 64 sessionId)

/-- A packet that fits is relayed as it came behind the session. -/
theorem before_relayStream {sessionId : Nat} {data : List Byte}
    (hfit : (sessionBytes sessionId).length + data.length ≤ UDP_PACKET_SIZE) (hdata : data ≠ []) :
    (relayStream sessionId data).before = sessionBytes sessionId ++ data.drop 1 := by
  have hpos := List.length_pos_iff.mpr hdata
  have hlen : (numval (BitVec.ofNat 64 sessionId)).length = (sessionBytes sessionId).length :=
    List.length_map _ |>.symm
  unfold UDP_PACKET_SIZE at hfit
  have hsession : (create (List.replicate (UDP_PACKET_SIZE - 1) 0)).add_numval (BitVec.ofNat 64 sessionId) =
      ⟨sessionBytes sessionId, List.replicate (UDP_PACKET_SIZE - 1 - (sessionBytes sessionId).length) 0, 0, true⟩ := by
    unfold add_numval
    rw [foldl_append_val, hlen]
    have htake : (sessionBytes sessionId).take (UDP_PACKET_SIZE - 1) = sessionBytes sessionId :=
      List.take_of_length_le (by unfold UDP_PACKET_SIZE; omega)
    have hleft : (sessionBytes sessionId).length - (UDP_PACKET_SIZE - 1) = 0 := by unfold UDP_PACKET_SIZE; omega
    have hok : (sessionBytes sessionId).length ≤ UDP_PACKET_SIZE - 1 := by unfold UDP_PACKET_SIZE; omega
    simp only [create, List.length_replicate, List.drop_replicate, List.nil_append, Nat.zero_add, hleft,
      hok, decide_true, Bool.and_true]
    exact congrArg (Pds.mk · _ 0 true) htake
  have hroom : (data.drop 1).length ≤ UDP_PACKET_SIZE - 1 - (sessionBytes sessionId).length := by
    rw [List.length_drop]
    unfold UDP_PACKET_SIZE
    omega
  unfold relayStream append_data_nosize
  rw [hsession, if_pos (by rwa [List.length_replicate])]

namespace Server

variable {w w' : Server} {c dst : ClientPtr}

/-- What a packet says to one that it is sent to. -/
structure Carries (w : Server) (c dst : ClientPtr) (data packet : List Byte) : Prop where
  type : (packet.headD 0).toNat &&& 0xe0 = (data.headD 0).toNat &&& 0xe0
  session : ((create (packet.drop 1)).get_numval).1 = BitVec.ofNat 64 (w.client c).sessionId
  here : (data.headD 0).toNat &&& 0x1f = 0x1f ∨ w.samePlace c dst (poslen data) = true →
    ((create (packet.drop 1)).get_numval).2.rest = data.drop 1
  elsewhere : (data.headD 0).toNat &&& 0x1f ≠ 0x1f → w.samePlace c dst (poslen data) = false →
    ((create (packet.drop 1)).get_numval).2.rest = (data.drop 1).take ((data.drop 1).length - poslen data) ∧
      poslen (packet.headD 0 :: ((create (packet.drop 1)).get_numval).2.rest) = 0

theorem type_bits : ∀ v < 256, (BitVec.ofNat 8 (v &&& 0xe0)).toNat &&& 0xe0 = v &&& 0xe0 ∧
    (BitVec.ofNat 8 (v &&& 0xe0 ||| 3)).toNat &&& 0xe0 = v &&& 0xe0 := by decide +kernel

/-- The type is all of the first byte that the positional information depends on. -/
theorem poslen_head {b b' : Byte} {rest : List Byte} (h : b.toNat &&& 0xe0 = b'.toNat &&& 0xe0) :
    poslen (b :: rest) = poslen (b' :: rest) := by
  unfold poslen
  rw [List.headD_cons, List.headD_cons, h]
  rfl

/-- Without the positional information the session and what is before it stay. -/
theorem take_relayed {b : Byte} {session rest : List Byte} {n : Nat} (hn : n ≤ rest.length) :
    (b :: (session ++ rest)).take ((b :: (session ++ rest)).length - n) =
      b :: (session ++ rest.take (rest.length - n)) := by
  have hlen : (b :: (session ++ rest)).length - n = session.length + (rest.length - n) + 1 := by
    rw [List.length_cons, List.length_append]
    omega
  rw [hlen, List.take_succ_cons, List.take_length_add_append]

/-- A packet that fits into the buffer can be relayed in any state, and each copy that is sent carries what came. A
speaker who is muted, or has spent the bandwidth, gets no copies. -/
theorem voiceMsg_carries (w : Server) (c : ClientPtr) {data : List Byte} (hdata : data ≠ [])
    (hfit : (sessionBytes (w.client c).sessionId).length + data.length ≤ UDP_PACKET_SIZE) :
    ∃ w' sent, w.voiceMsg c data = some (w', sent) ∧ ∀ d ∈ sent, w.Carries c d.1 data d.2 := by
  obtain ⟨b, rest, rfl⟩ := List.exists_cons_of_ne_nil hdata
  obtain ⟨hpos, hstrip⟩ := poslen_strip b rest
  unfold voiceMsg
  split
  next => exact ⟨w, [], rfl, fun d hd => absurd hd List.not_mem_nil⟩
  next ch _ =>
    have hsession := modifyClient_eq Client.sessionId w c (f := fun client =>
      { client with availableBandwidth := client.availableBandwidth - packetsize (b :: rest) }) rfl c
    have hcontext := modifyClient_eq Client.context w c (f := fun client =>
      { client with availableBandwidth := client.availableBandwidth - packetsize (b :: rest) }) rfl
    have hbefore := before_relayStream hfit hdata
    rw [List.drop_one, List.tail_cons] at hbefore
    dsimp only
    unfold offset
    rw [hsession, hbefore, List.headD_cons]
    split
    next hloop =>
      refine ⟨_, _, rfl, fun d hd => ?_⟩
      obtain rfl := List.mem_singleton.mp hd
      refine ⟨(type_bits _ b.isLt).1, ?_, fun _ => ?_, fun hnot => absurd hloop hnot⟩
      all_goals rw [List.drop_one, List.tail_cons, get_numval_session]
      rfl
    next hloop =>
      rw [if_neg (by rw [List.length_append]; omega)]
      refine ⟨_, _, rfl, fun d hd => ?_⟩
      obtain ⟨dst, _, hsent⟩ := List.mem_filterMap.mp hd
      unfold sendVoice at hsent
      obtain ⟨_, hsent⟩ := Option.ite_none_right_eq_some.mp hsent
      obtain rfl := Option.some.inj hsent
      have hplace : (w.modifyClient c fun client =>
          { client with availableBandwidth := client.availableBandwidth - packetsize (b :: rest) }).samePlace c dst
          (poslen (b :: rest)) = w.samePlace c dst (poslen (b :: rest)) := by
        unfold samePlace
        rw [hcontext c, hcontext dst]
      have htype := (type_bits _ b.isLt).2
      rw [hplace]
      by_cases hhere : w.samePlace c dst (poslen (b :: rest)) = true
      · rw [if_pos hhere]
        refine ⟨htype, ?_, fun _ => ?_, fun _ hnot => absurd hhere (by rw [hnot]; exact Bool.false_ne_true)⟩
        all_goals rw [List.drop_one, List.tail_cons, get_numval_session]
        rfl
      · rw [if_neg hhere, take_relayed hpos]
        refine ⟨htype, ?_, fun hplaces => absurd hplaces (not_or.mpr ⟨hloop, hhere⟩), fun _ _ => ⟨?_, ?_⟩⟩
        all_goals rw [List.drop_one, List.tail_cons, get_numval_session]
        · rfl
        · rw [List.headD_cons, poslen_head htype]
          exact hstrip

/-- The first two clients are in the same place. -/
def placeActs : List Action := listenActs ++
  [.userState 0 { plugin_context := some [7#8] }, .userState 1 { plugin_context := some [7#8, 0#8, 9#8] }]

/-- A frame of one byte, and two bytes about the place. -/
def placedPacket : List Byte := [0x80#8, 1#8, 1#8, 50#8, 8#8, 8#8]

theorem voiceMsg_carries_apart : ∃ (w w' : Server) (sent : _), w.voiceMsg 0 placedPacket = some (w', sent) ∧
    sent = [(1, [0x83#8, 1#8, 1#8, 1#8, 50#8, 8#8, 8#8]), (2, [0x83#8, 1#8, 1#8, 1#8, 50#8])] ∧
    ∀ d ∈ sent, w.Carries 0 d.1 placedPacket d.2 := by
  have hend : (exec (step plainConf) ((chanInit twoChannels [76#8] []).get twoChannels_isSome) placeActs).any
      (fun w => (w.client 0).sessionId = 1 ∧ (w.voiceMsg 0 placedPacket).map Prod.snd =
        some [(1, [0x83#8, 1#8, 1#8, 1#8, 50#8, 8#8, 8#8]), (2, [0x83#8, 1#8, 1#8, 1#8, 50#8])]) = true := by
          decide +kernel
  obtain ⟨w, _, hend⟩ := exists_run hend
  obtain ⟨hsession, hsent⟩ := of_decide_eq_true hend
  have hfit : (sessionBytes (w.client 0).sessionId).length + placedPacket.length ≤ UDP_PACKET_SIZE := by
    rw [hsession]
    decide
  have hdata : placedPacket ≠ [] := List.cons_ne_nil _ _
  obtain ⟨w', sent, hvoice, hcarries⟩ := voiceMsg_carries w 0 hdata hfit
  rw [hvoice] at hsent
  exact ⟨w, w', sent, hvoice, Option.some.inj hsent, hcarries⟩

end Server

end mumble
