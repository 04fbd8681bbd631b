import Citizen.InitConnect.Ticket

open Bits

namespace fx

/-- Bytes of the ticket, or of the extra data that is copied from it. -/
structure TicketRange where
  extra : Bool := false
  offset : Nat
  length : Nat

/-- The bytes are there. -/
def TicketRange.InBounds (ticketLength extraLength : Nat) (range : TicketRange) : Prop :=
  range.offset + range.length ≤ if range.extra then extraLength else ticketLength

instance (ticketLength extraLength : Nat) (range : TicketRange) :
    Decidable (range.InBounds ticketLength extraLength) :=
  inferInstanceAs (Decidable (_ ≤ _))

/-- The bytes that `VerifyTicket` reads. -/
def verifyTicketRanges (s : TicketList) (call : TicketCall) (ticketData : List Byte) : List TicketRange :=
  if ticketData.length < 20 + 4 + 128 then []
  else
    let length := readNumber ticketData 0 4
    { offset := 0, length := 4 } ::
      if length ≠ 16 then []
      else
        { offset := 4, length := 8 } :: { offset := 12, length := 8 } ::
          if ticketExpiry ticketData < call.time ∨ strtoull call.guid ≠ ticketGuid ticketData ∨
              s.insert call (ticketKey ticketData) = none then []
          else
            { offset := length + 4, length := 4 } ::
              if readNumber ticketData (length + 4) 4 ≠ 128 then []
              else [{ offset := 4, length }, { offset := length + 4 + 4, length := 128 }]

/-- What `VerifyTicketEx` returns of a ticket. -/
structure TicketData where
  entitlementHash : Option (List Byte) := none
  extraJson : Option (List Byte) := none

/-- What a call of `VerifyTicketEx` comes to. It is undefined when bytes are read that are not there. -/
inductive TicketExResult
  | undefined
  | refused
  | ticket (data : TicketData)

/-- The call reads some bytes and goes on. -/
def readRange (ticketLength extraLength : Nat) (range : TicketRange) (next : List TicketRange × TicketExResult) :
    List TicketRange × TicketExResult :=
  if range.InBounds ticketLength extraLength then (range :: next.1, next.2) else ([range], .undefined)

/-- A sum of `uint32_t`. -/
def add32 (a b : Nat) : Nat := (a + b) % 2 ^ 32

/-- The length of the extra data. -/
def extraLength (ticketData : List Byte) : Nat := readNumber ticketData (20 + 4 + 128) 4

def extraData (ticketData : List Byte) : List Byte :=
    (ticketData.drop (20 + 4 + 128 + 4)).take (extraLength ticketData)

/-- The length of the signature, as it is looked up. -/
def sigLength (ticketData : List Byte) : Nat :=
    readNumber ticketData (add32 (20 + 4 + 128 + 4) (extraLength ticketData)) 4

/-- The offset of the signature, as it is looked up. -/
def sigOffset (ticketData : List Byte) : Nat := add32 (extraLength ticketData) (4 + 4 + 128 + 20 + 4)

/-- The signature is that of the ticket. -/
def signedEx (botan : Botan) (ticketData : List Byte) : Bool :=
  botan.verifyMessage (2 :: botan.sha160 ((ticketData.drop 4).take (ticketData.length - 128 - 4 - 4)))
    ((ticketData.drop (sigOffset ticketData)).take (sigLength ticketData))

def extraJsonLength (ticketData : List Byte) : Nat := readNumber (extraData ticketData) 20 4

/-- What is taken from the extra data of a ticket that was signed. -/
def readExtra (ticketData : List Byte) : List TicketRange × TicketExResult :=
  let length := extraLength ticketData
  let extra := extraData ticketData
  let read := readRange ticketData.length length
  let hash : TicketData := { entitlementHash := some (extra.take 20) }
  if 20 ≤ length then
    read { extra := true, offset := 0, length := 20 }
      (if 24 ≤ length then
        read { extra := true, offset := 20, length := 4 }
          (if add32 24 (extraJsonLength ticketData) ≤ length then
            read { extra := true, offset := 24, length := extraJsonLength ticketData }
              ([], .ticket { hash with extraJson := some ((extra.drop 24).take (extraJsonLength ticketData)) })
          else ([], .ticket hash))
      else ([], .ticket hash))
  else ([], .ticket {})

/-- The signature is checked, and the extra data is taken. -/
def verifySignatureEx (botan : Botan) (ticketData : List Byte) : List TicketRange × TicketExResult :=
  let read := readRange ticketData.length (extraLength ticketData)
  if sigLength ticketData ≠ 128 then ([], .refused)
  else
    read { offset := 4, length := ticketData.length - 128 - 4 - 4 }
      (read { offset := sigOffset ticketData, length := sigLength ticketData }
        (if signedEx botan ticketData then readExtra ticketData else ([], .refused)))

/-- The bytes that `VerifyTicketEx` reads of a decoded ticket, and what it returns. -/
def verifyTicketEx (botan : Botan) (ticketData : List Byte) : List TicketRange × TicketExResult :=
  let length := extraLength ticketData
  let read := readRange ticketData.length length
  if ticketData.length < 20 + 4 + 128 + 4 then ([], .refused)
  else
    read { offset := 20 + 4 + 128, length := 4 }
      (if ticketData.length < add32 (20 + 4 + 128 + 4) length then ([], .refused)
      else
        -- an empty copy reads nothing
        read { offset := 20 + 4 + 128 + 4, length }
          (read { offset := add32 (20 + 4 + 128 + 4) length, length := 4 } (verifySignatureEx botan ticketData)))

/-- `VerifyTicketEx` reads bytes that are there, and does not take a ticket or a text that is too short for its
lengths. -/
structure ReadsTicketExSafely (botan : Botan) (ticketData : List Byte) : Prop where
  inBounds : ∀ range ∈ (verifyTicketEx botan ticketData).1, range.InBounds ticketData.length (extraLength ticketData)
  short : ticketData.length < 20 + 4 + 128 + 4 ∨
    ticketData.length < 20 + 4 + 128 + 4 + extraLength ticketData + 4 + 128 →
      (verifyTicketEx botan ticketData).2 = .refused
  shortText : ∀ data, (verifyTicketEx botan ticketData).2 = .ticket data →
    extraLength ticketData < 24 + extraJsonLength ticketData → data.extraJson = none

/-- The length of a text does not wrap around, or there is none. -/
def TextFits (ticketData : List Byte) : Prop :=
  extraLength ticketData < 24 ∨ extraLength ticketData < add32 24 (extraJsonLength ticketData) ∨
    24 + extraJsonLength ticketData ≤ extraLength ticketData

/-- The signature is not looked at, or it is there; and a ticket that it is right for is long enough. -/
def SignatureFits (botan : Botan) (ticketData : List Byte) : Prop :=
  sigLength ticketData ≠ 128 ∨ sigOffset ticketData + 128 ≤ ticketData.length ∧
    (signedEx botan ticketData = false ∨
      20 + 4 + 128 + 4 + extraLength ticketData + 4 + 128 ≤ ticketData.length ∧ TextFits ticketData)

/-- The ticket is refused for its length, or its extra data and the length of its signature are there. -/
def LengthsFit (botan : Botan) (ticketData : List Byte) : Prop :=
  ticketData.length < 20 + 4 + 128 + 4 ∨ ticketData.length < add32 (20 + 4 + 128 + 4) (extraLength ticketData) ∨
    20 + 4 + 128 + 4 + extraLength ticketData ≤ ticketData.length ∧
      add32 (20 + 4 + 128 + 4) (extraLength ticketData) + 4 ≤ ticketData.length ∧ SignatureFits botan ticketData

section Ranges

variable {ticketLength extraLength : Nat} {range : TicketRange} {next : List TicketRange × TicketExResult}

theorem readRange_inBounds_iff :
    (∀ other ∈ (readRange ticketLength extraLength range next).1, other.InBounds ticketLength extraLength) ↔
      range.InBounds ticketLength extraLength ∧ ∀ other ∈ next.1, other.InBounds ticketLength extraLength := by
  unfold readRange
  split_ifs with hrange
  · exact List.forall_mem_cons
  · exact iff_of_false (fun h => hrange (h range List.mem_cons_self)) fun h => hrange h.1

theorem readRange_snd (h : range.InBounds ticketLength extraLength) :
    (readRange ticketLength extraLength range next).2 = next.2 := by
  unfold readRange
  rw [if_pos h]

theorem readRange_ticket {data : TicketData} (h : (readRange ticketLength extraLength range next).2 = .ticket data) :
    range.InBounds ticketLength extraLength ∧ next.2 = .ticket data := by
  unfold readRange at h
  split_ifs at h with hrange
  exact ⟨hrange, h⟩

end Ranges

variable {botan : Botan} {ticketData : List Byte}

private theorem none_inBounds {ticketLength extraLength : Nat} {p : Prop} (h : p) {result : TicketExResult} :
    (∀ other ∈ ([], result).1, TicketRange.InBounds ticketLength extraLength other) ↔ p :=
  iff_of_true (fun _ hmem => absurd hmem List.not_mem_nil) h

theorem readExtra_inBounds_iff :
    (∀ range ∈ (readExtra ticketData).1, range.InBounds ticketData.length (extraLength ticketData)) ↔
      TextFits ticketData := by
  unfold readExtra TextFits
  dsimp only
  by_cases hhash : 20 ≤ extraLength ticketData
  · rw [if_pos hhash, readRange_inBounds_iff, and_iff_right (by exact hhash)]
    by_cases htext : 24 ≤ extraLength ticketData
    · rw [if_pos htext, readRange_inBounds_iff, and_iff_right (by exact htext), or_iff_right (Nat.not_lt.mpr htext)]
      by_cases htake : add32 24 (extraJsonLength ticketData) ≤ extraLength ticketData
      · rw [if_pos htake, readRange_inBounds_iff, none_inBounds trivial, and_true, or_iff_right (Nat.not_lt.mpr htake)]
        exact Iff.rfl
      · rw [if_neg htake]
        exact none_inBounds (.inl (Nat.lt_of_not_le htake))
    · rw [if_neg htext]
      exact none_inBounds (.inl (Nat.lt_of_not_le htext))
  · rw [if_neg hhash]
    exact none_inBounds (.inl (by omega))

theorem readExtra_ticket {data : TicketData} (h : (readExtra ticketData).2 = .ticket data)
    (hshort : extraLength ticketData < 24 + extraJsonLength ticketData) : data.extraJson = none := by
  unfold readExtra at h
  dsimp only at h
  split_ifs at h with hhash htext htake
  · obtain ⟨hinside, -⟩ := readRange_ticket (readRange_ticket (readRange_ticket h).2).2
    exact absurd hshort (Nat.not_lt.mpr hinside)
  · cases (readRange_ticket (readRange_ticket h).2).2
    rfl
  · cases (readRange_ticket h).2
    rfl
  · cases h
    rfl

/-- The extra data of a ticket that was signed is not refused. -/
theorem readExtra_isTicket (h : TextFits ticketData) : ∃ data, (readExtra ticketData).2 = .ticket data := by
  unfold readExtra
  dsimp only
  split_ifs with hhash htext htake
  · rw [readRange_snd (by exact hhash), readRange_snd (by exact htext), readRange_snd]
    · exact ⟨_, rfl⟩
    · exact (h.resolve_left (Nat.not_lt.mpr htext)).resolve_left (Nat.not_lt.mpr htake)
  · rw [readRange_snd (by exact hhash), readRange_snd (by exact htext)]
    exact ⟨_, rfl⟩
  · rw [readRange_snd (by exact hhash)]
    exact ⟨_, rfl⟩
  · exact ⟨_, rfl⟩

/-- The hashed bytes are always there. -/
theorem hash_inBounds (hlong : 20 + 4 + 128 + 4 ≤ ticketData.length) :
    TicketRange.InBounds ticketData.length (extraLength ticketData)
      { offset := 4, length := ticketData.length - 128 - 4 - 4 } := by
  show 4 + (ticketData.length - 128 - 4 - 4) ≤ ticketData.length
  omega

theorem signature_inBounds_iff (hlong : 20 + 4 + 128 + 4 ≤ ticketData.length) :
    (∀ range ∈ (verifySignatureEx botan ticketData).1, range.InBounds ticketData.length (extraLength ticketData)) ↔
      sigLength ticketData ≠ 128 ∨ sigOffset ticketData + 128 ≤ ticketData.length ∧
        (signedEx botan ticketData = false ∨ TextFits ticketData) := by
  unfold verifySignatureEx
  dsimp only
  by_cases hsig : sigLength ticketData ≠ 128
  · rw [if_pos hsig]
    exact none_inBounds (.inl hsig)
  · rw [if_neg hsig, readRange_inBounds_iff, and_iff_right (hash_inBounds hlong), readRange_inBounds_iff,
      or_iff_right hsig, not_not.mp hsig]
    refine and_congr Iff.rfl ?_
    cases hsigned : signedEx botan ticketData with
    | false => exact none_inBounds (.inl rfl)
    | true =>
      rw [if_pos rfl, readExtra_inBounds_iff]
      exact (or_iff_right (by decide)).symm

theorem signature_ticket {data : TicketData} (h : (verifySignatureEx botan ticketData).2 = .ticket data) :
    (readExtra ticketData).2 = .ticket data := by
  unfold verifySignatureEx at h
  dsimp only at h
  split_ifs at h with hsig hsigned
  · exact (readRange_ticket (readRange_ticket h).2).2
  · cases (readRange_ticket (readRange_ticket h).2).2

/-- Without a right signature the ticket is refused. -/
theorem signature_refused (hlong : 20 + 4 + 128 + 4 ≤ ticketData.length)
    (h : sigLength ticketData ≠ 128 ∨ sigOffset ticketData + 128 ≤ ticketData.length ∧
      signedEx botan ticketData = false) :
    (verifySignatureEx botan ticketData).2 = .refused := by
  unfold verifySignatureEx
  dsimp only
  by_cases hsig : sigLength ticketData ≠ 128
  · rw [if_pos hsig]
  · obtain ⟨hthere, hsigned⟩ := h.resolve_left hsig
    rw [if_neg hsig, readRange_snd (hash_inBounds hlong), readRange_snd, hsigned]
    · rfl
    · rw [not_not.mp hsig]
      exact hthere

/-- With one it is taken. -/
theorem signature_isTicket (hlong : 20 + 4 + 128 + 4 ≤ ticketData.length) (hsig : sigLength ticketData = 128)
    (hthere : sigOffset ticketData + 128 ≤ ticketData.length) (hsigned : signedEx botan ticketData = true)
    (htext : TextFits ticketData) : ∃ data, (verifySignatureEx botan ticketData).2 = .ticket data := by
  unfold verifySignatureEx
  dsimp only
  rw [if_neg (not_not.mpr hsig), readRange_snd (hash_inBounds hlong), readRange_snd, hsigned]
  · exact readExtra_isTicket htext
  · rw [hsig]
    exact hthere

theorem readsTicketExSafely_of_refused (h : ∃ ranges, verifyTicketEx botan ticketData = (ranges, .refused))
    (hinside : ∀ range ∈ (verifyTicketEx botan ticketData).1,
      range.InBounds ticketData.length (extraLength ticketData)) :
    ReadsTicketExSafely botan ticketData := by
  obtain ⟨ranges, hrefused⟩ := h
  refine ⟨hinside, fun _ => by rw [hrefused], fun data hdata => ?_⟩
  rw [hrefused] at hdata
  cases hdata

/-- `VerifyTicketEx` is safe exactly where the lengths of the ticket fit it. -/
theorem readsTicketExSafely_iff (botan : Botan) (ticketData : List Byte) :
    ReadsTicketExSafely botan ticketData ↔ LengthsFit botan ticketData := by
  by_cases hshort : ticketData.length < 20 + 4 + 128 + 4
  · have hresult : verifyTicketEx botan ticketData = ([], .refused) := if_pos hshort
    refine iff_of_true (readsTicketExSafely_of_refused ⟨_, hresult⟩ fun range hmem => ?_) (.inl hshort)
    rw [hresult] at hmem
    exact absurd hmem List.not_mem_nil
  have hlong : 20 + 4 + 128 + 4 ≤ ticketData.length := Nat.le_of_not_lt hshort
  have hlength : TicketRange.InBounds ticketData.length (extraLength ticketData)
    { offset := 20 + 4 + 128, length := 4 } := hlong
  by_cases hfull : ticketData.length < add32 (20 + 4 + 128 + 4) (extraLength ticketData)
  · have hresult : verifyTicketEx botan ticketData = ([{ offset := 20 + 4 + 128, length := 4 }], .refused) := by
      unfold verifyTicketEx readRange
      dsimp only
      rw [if_neg hshort, if_pos hlength, if_pos hfull]
    refine iff_of_true (readsTicketExSafely_of_refused ⟨_, hresult⟩ fun range hmem => ?_) (.inr (.inl hfull))
    rw [hresult, List.mem_singleton] at hmem
    exact hmem ▸ hlength
  -- the extra data is copied, and the length of the signature is looked up
  have hinside : (∀ range ∈ (verifyTicketEx botan ticketData).1,
      range.InBounds ticketData.length (extraLength ticketData)) ↔
        20 + 4 + 128 + 4 + extraLength ticketData ≤ ticketData.length ∧ add32 (20 + 4 + 128 + 4)
          (extraLength ticketData) + 4 ≤ ticketData.length ∧ ∀ range ∈ (verifySignatureEx botan ticketData).1,
            range.InBounds ticketData.length (extraLength ticketData) := by
    unfold verifyTicketEx
    dsimp only
    rw [if_neg hshort, readRange_inBounds_iff, and_iff_right hlength, if_neg hfull, readRange_inBounds_iff,
      readRange_inBounds_iff]
    exact Iff.rfl
  have hresult : 20 + 4 + 128 + 4 + extraLength ticketData ≤ ticketData.length →
      add32 (20 + 4 + 128 + 4) (extraLength ticketData) + 4 ≤ ticketData.length →
      (verifyTicketEx botan ticketData).2 = (verifySignatureEx botan ticketData).2 := by
    intro hcopy hlookup
    unfold verifyTicketEx
    dsimp only
    rw [if_neg hshort, readRange_snd hlength, if_neg hfull, readRange_snd, readRange_snd]
    · exact hlookup
    · exact hcopy
  rw [LengthsFit, or_iff_right hshort, or_iff_right hfull]
  constructor
  · intro h
    obtain ⟨hcopy, hlookup, hsignature⟩ := hinside.mp h.inBounds
    refine ⟨hcopy, hlookup, ?_⟩
    rcases (signature_inBounds_iff hlong).mp hsignature with hsig | ⟨hthere, hunsigned | htext⟩
    · exact .inl hsig
    · exact .inr ⟨hthere, .inl hunsigned⟩
    · by_cases hsig : sigLength ticketData = 128
      · refine .inr ⟨hthere, ?_⟩
        by_cases hsigned : signedEx botan ticketData = true
        · refine .inr ⟨Nat.le_of_not_lt fun hless => ?_, htext⟩
          obtain ⟨data, hdata⟩ := signature_isTicket hlong hsig hthere hsigned htext
          have hrefused := h.short (.inr hless)
          rw [hresult hcopy hlookup, hdata] at hrefused
          cases hrefused
        · exact .inl (Bool.eq_false_iff.mpr hsigned)
      · exact .inl hsig
  · rintro ⟨hcopy, hlookup, hsignature⟩
    refine ⟨hinside.mpr ⟨hcopy, hlookup, (signature_inBounds_iff hlong).mpr ?_⟩, fun hless => ?_,
      fun data hdata hshortText => ?_⟩
    · exact hsignature.imp_right fun h => ⟨h.1, h.2.imp_right And.right⟩
    · rw [hresult hcopy hlookup]
      refine signature_refused hlong (hsignature.imp_right fun h => ⟨h.1, h.2.resolve_right fun hfits => ?_⟩)
      omega
    · rw [hresult hcopy hlookup] at hdata
      exact readExtra_ticket (signature_ticket hdata) hshortText

/-- `VerifyTicket` reads bytes that are there. -/
theorem verifyTicketRanges_inBounds (s : TicketList) (call : TicketCall) (ticketData : List Byte) (extraLength : Nat) :
    ∀ range ∈ verifyTicketRanges s call ticketData, range.InBounds ticketData.length extraLength := by
  unfold verifyTicketRanges
  by_cases hshort : ticketData.length < 20 + 4 + 128
  · rw [if_pos hshort]
    exact fun _ hmem => absurd hmem List.not_mem_nil
  rw [if_neg hshort]
  have hinside : ∀ {offset length : Nat}, offset + length ≤ 152 →
      TicketRange.InBounds ticketData.length extraLength { offset, length } :=
        fun hle => hle.trans (Nat.le_of_not_lt hshort)
  have hnone : ∀ range ∈ ([] : List TicketRange), range.InBounds ticketData.length extraLength :=
    fun _ hmem => absurd hmem List.not_mem_nil
  refine List.forall_mem_cons.mpr ⟨hinside (by decide), ?_⟩
  by_cases hlength : readNumber ticketData 0 4 ≠ 16
  · rw [if_pos hlength]
    exact hnone
  rw [if_neg hlength, not_not.mp hlength]
  refine List.forall_mem_cons.mpr ⟨hinside (by decide), List.forall_mem_cons.mpr ⟨hinside (by decide), ?_⟩⟩
  split_ifs
  · exact hnone
  · exact List.forall_mem_cons.mpr ⟨hinside (by decide), hnone⟩
  · refine List.forall_mem_cons.mpr ⟨hinside (by decide), List.forall_mem_cons.mpr ⟨hinside (by decide), ?_⟩⟩
    exact List.forall_mem_cons.mpr ⟨hinside (by decide), hnone⟩

/-- It refuses a ticket that is too short for the length that it announces, and a signature. -/
theorem verifyTicket_short {s : TicketList} {call : TicketCall}
    (hdecode : botan.base64Decode call.ticket = some ticketData)
    (hshort : ticketData.length < 4 + readNumber ticketData 0 4 + 4 + 128) :
    ∃ text, (verifyTicket botan s call).1 = .error text := by
  have hread : ∃ text, readTicket botan call = .error (.error text) := by
    rw [readTicket, hdecode]
    dsimp only
    split_ifs with hlength hsize
    · exact ⟨_, rfl⟩
    · exact ⟨_, rfl⟩
    all_goals omega
  obtain ⟨text, hread⟩ := hread
  rw [verifyTicket, hread]
  exact ⟨text, rfl⟩

/-- Of any decoded ticket `VerifyTicket` reads bytes that are there, and `VerifyTicketEx` exactly where its lengths
fit. -/
theorem tickets_read_safely_iff (botan : Botan) (ticketData : List Byte) :
    (∀ s call, (∀ range ∈ verifyTicketRanges s call ticketData, range.InBounds ticketData.length 0) ∧
        (botan.base64Decode call.ticket = some ticketData →
          ticketData.length < 4 + readNumber ticketData 0 4 + 4 + 128 → ∃ text,
            (verifyTicket botan s call).1 = .error text)) ∧
      (ReadsTicketExSafely botan ticketData ↔ LengthsFit botan ticketData) :=
  ⟨fun s call => ⟨verifyTicketRanges_inBounds s call ticketData 0, verifyTicket_short⟩,
    readsTicketExSafely_iff botan ticketData⟩

/-- A ticket of the length and with the two lengths that `VerifyTicket` asks for. -/
private def plainTicket : List Byte :=
  [16, 0, 0, 0] ++ List.replicate 16 0 ++ [128, 0, 0, 0] ++ List.replicate 128 0

/-- A ticket that ends with its extra data, and one whose length wraps around. -/
theorem ticketEx_past_the_end :
    let botan : Botan := { base64Decode := some, sha160 := fun _ => [], verifyMessage := fun _ _ => true }
    ¬ ReadsTicketExSafely botan (plainTicket ++ [0, 0, 0, 0]) ∧
      ¬ ReadsTicketExSafely botan (plainTicket ++ [0x64, 0xFF, 0xFF, 0xFF]) := by
  intro botan
  rw [readsTicketExSafely_iff, readsTicketExSafely_iff]
  constructor
  · rintro (hshort | hfull | ⟨-, hlookup, -⟩)
    · exact absurd hshort (by decide +kernel)
    · exact absurd hfull (by decide +kernel)
    · exact absurd hlookup (by decide +kernel)
  · rintro (hshort | hfull | ⟨hcopy, -⟩)
    · exact absurd hshort (by decide +kernel)
    · exact absurd hfull (by decide +kernel)
    · exact absurd hcopy (by decide +kernel)

end fx
