import Citizen.Lib.Bits

open Bits

namespace Chunked

/-- A digit's value. What is no digit has a value that no base allows. -/
def digitValue (c : Byte) : Nat :=
  if 48 ≤ c.toNat ∧ c.toNat ≤ 57 then c.toNat - 48
  else if 97 ≤ c.toNat ∧ c.toNat ≤ 102 then c.toNat - 87
  else if 65 ≤ c.toNat ∧ c.toNat ≤ 70 then c.toNat - 55
  else 256

/-- A number in some base, without a sign or leading zeros. -/
def numeral (base n : Nat) : List Byte := (Nat.toDigits base n).map fun c => BitVec.ofNat 8 c.toNat

/-- The number that a numeral stands for. -/
def readNumeral (base : Nat) (text : List Byte) : Option Nat :=
  if text ≠ [] ∧ ∀ c ∈ text, digitValue c < base then some (text.foldl (fun n c => base * n + digitValue c) 0)
    else none

def crlf : List Byte := [13, 10]

/-- A line up to its CR LF, and what follows. -/
def readLine : List Byte → Option (List Byte × List Byte)
  | [] => none
  | c :: rest =>
    if c = 13 ∧ rest.head? = some 10 then some ([], rest.tail)
    else (readLine rest).map fun (line, after) => (c :: line, after)

/-- The lines up to an empty one are passed over. -/
def skipLines : Nat → List Byte → Option (List Byte)
  | 0, _ => none
  | fuel + 1, input => (readLine input).bind fun (line, rest) => if line = [] then some rest else skipLines fuel rest

/-- A chunk of a body: its size, and its bytes. -/
def chunk (data : List Byte) : List Byte := numeral 16 data.length ++ crlf ++ data ++ crlf

/-- The last chunk, with no trailer. -/
def lastChunk : List Byte := [48] ++ crlf ++ crlf

/-- The chunks up to the last one, with what they carry and what follows them. Chunk extensions and the trailer are
passed over. -/
def readChunks : Nat → List Byte → Option (List Byte × List Byte)
  | 0, _ => none
  | fuel + 1, input =>
    (readLine input).bind fun (line, rest) =>
      (readNumeral 16 (line.takeWhile (· ≠ 59))).bind fun size =>
        if size = 0 then (skipLines fuel rest).map fun after => ([], after)
        else if (rest.drop size).take 2 = crlf then
          (readChunks fuel (rest.drop (size + 2))).map fun (body, after) => (rest.take size ++ body, after)
        else none

/-- A body in the chunked coding that nothing follows. -/
def decode (input : List Byte) : Option (List Byte) :=
  (readChunks (input.length + 1) input).bind fun (body, after) => if after = [] then some body else none

variable {base n fuel : Nat} {input line rest after body data : List Byte}

theorem digitValue_digitChar (hdigit : n < 16) : digitValue (BitVec.ofNat 8 n.digitChar.toNat) = n := by
  revert n
  decide

theorem foldl_numeral (htwo : 1 < base) (hbase : base ≤ 16) (n : Nat) :
    (∀ c ∈ numeral base n, digitValue c < base) ∧
      (numeral base n).foldl (fun n c => base * n + digitValue c) 0 = n := by
  induction n using Nat.strong_induction_on with
  | _ n ih =>
    rw [numeral, Nat.toDigits_eq_if htwo]
    by_cases hlt : n < base
    · rw [if_pos hlt, List.map_singleton, List.foldl_cons, List.foldl_nil, digitValue_digitChar (by omega)]
      refine ⟨?_, by omega⟩
      intro c hc
      rw [List.mem_singleton.mp hc, digitValue_digitChar (by omega)]
      exact hlt
    · have hmod : n % base < base := Nat.mod_lt _ (by omega)
      obtain ⟨hdigits, hvalue⟩ := ih (n / base) (Nat.div_lt_self (by omega) htwo)
      rw [if_neg hlt, List.map_append, List.foldl_append, List.map_singleton, List.foldl_cons, List.foldl_nil,
        digitValue_digitChar (by omega)]
      constructor
      · intro c hc
        obtain hc | hc := List.mem_append.mp hc
        · exact hdigits c hc
        · rw [List.mem_singleton.mp hc, digitValue_digitChar (by omega)]
          exact hmod
      · rw [← numeral, hvalue]
        exact Nat.div_add_mod n base

@[simp] theorem readNumeral_numeral (htwo : 1 < base) (hbase : base ≤ 16) (n : Nat) :
    readNumeral base (numeral base n) = some n := by
  obtain ⟨hdigits, hvalue⟩ := foldl_numeral htwo hbase n
  have hne : numeral base n ≠ [] := by
    rw [numeral, ne_eq, List.map_eq_nil_iff]
    exact Nat.toDigits_ne_nil
  rw [readNumeral, if_pos ⟨hne, hdigits⟩, hvalue]

/-- Digits are no CR. -/
theorem not_mem_numeral (htwo : 1 < base) (hbase : base ≤ 16) {c : Byte} (hc : 16 ≤ digitValue c) (n : Nat) :
    c ∉ numeral base n := by
  intro hmem
  have hlt := (foldl_numeral htwo hbase n).1 c hmem
  omega

theorem readLine_append (hline : (13 : Byte) ∉ line) (rest : List Byte) :
    readLine (line ++ crlf ++ rest) = some (line, rest) := by
  induction line with
  | nil => rfl
  | cons c line ih =>
    obtain ⟨hc, hline⟩ := not_or.mp (mt List.mem_cons.mpr hline)
    rw [List.cons_append, List.cons_append, readLine, if_neg (fun h => hc h.1.symm), ih hline]
    rfl

/-- A line takes its bytes and two more. -/
theorem length_readLine (h : readLine input = some (line, rest)) : line.length + rest.length + 2 = input.length := by
  induction input generalizing line with
  | nil => cases h
  | cons c input ih =>
    rw [readLine] at h
    split at h
    · rename_i hend
      obtain ⟨-, hhead⟩ := hend
      cases h
      rw [List.length_tail, List.length_cons, List.length_nil]
      cases input with
      | nil => cases hhead
      | cons _ _ =>
        simp only [List.length_cons]
        omega
    · obtain ⟨⟨line', rest'⟩, hread, heq⟩ := Option.map_eq_some_iff.mp h
      cases heq
      have hlength := ih hread
      simp only [List.length_cons]
      omega

theorem length_skipLines (h : skipLines fuel input = some rest) : rest.length < input.length := by
  induction fuel generalizing input with
  | zero => cases h
  | succ fuel ih =>
    obtain ⟨⟨line, after⟩, hread, hnext⟩ := Option.bind_eq_some_iff.mp h
    have hlength := length_readLine hread
    dsimp only at hnext
    split at hnext
    · cases hnext
      omega
    · have hrest := ih hnext
      omega

/-- The coding is longer than what it carries. -/
theorem length_readChunks (h : readChunks fuel input = some (body, after)) :
    body.length + after.length < input.length := by
  induction fuel generalizing input body with
  | zero => cases h
  | succ fuel ih =>
    obtain ⟨⟨line, rest⟩, hread, hnext⟩ := Option.bind_eq_some_iff.mp h
    obtain ⟨size, -, hchunk⟩ := Option.bind_eq_some_iff.mp hnext
    have hline := length_readLine hread
    split at hchunk
    · obtain ⟨rest', hskip, heq⟩ := Option.map_eq_some_iff.mp hchunk
      cases heq
      have hrest := length_skipLines hskip
      simp only [List.length_nil]
      omega
    · split at hchunk
      · obtain ⟨⟨body', after'⟩, hmore, heq⟩ := Option.map_eq_some_iff.mp hchunk
        cases heq
        have hrest := ih hmore
        rw [List.length_drop] at hrest
        rw [List.length_append, List.length_take]
        omega
      · cases hchunk

theorem decode_ne_self (input : List Byte) : decode input ≠ some input := by
  intro h
  obtain ⟨⟨body, after⟩, hread, hend⟩ := Option.bind_eq_some_iff.mp h
  have hlength := length_readChunks hread
  dsimp only at hend
  split at hend
  · cases hend
    omega
  · cases hend

theorem readChunks_lastChunk (fuel : Nat) : readChunks (fuel + 2) lastChunk = some ([], []) := by
  have hline : readLine lastChunk = some ([48], crlf) := rfl
  have hempty : readLine crlf = some ([], []) := rfl
  rw [readChunks, hline, Option.bind_some]
  dsimp only
  rw [show readNumeral 16 _ = some 0 from rfl, Option.bind_some, if_pos rfl, skipLines, hempty]
  rfl

theorem readChunks_chunk (hdata : data ≠ []) (rest : List Byte) :
    readChunks (fuel + 1) (chunk data ++ rest) = (readChunks fuel rest).map fun (body, after) =>
      (data ++ body, after) := by
  have hline : readLine (chunk data ++ rest) = some (numeral 16 data.length, data ++ crlf ++ rest) := by
    have hcr : 13 ∉ numeral 16 data.length := not_mem_numeral (by omega) (by omega) (by decide) _
    rw [← readLine_append hcr (data ++ crlf ++ rest), chunk]
    simp only [List.append_assoc]
  have hplain : (numeral 16 data.length).takeWhile (· ≠ 59) = numeral 16 data.length := by
    rw [List.takeWhile_eq_self_iff]
    intro c hc
    exact decide_eq_true fun heq => not_mem_numeral (by omega) (by omega) (by decide) data.length (heq ▸ hc)
  have hpos : data.length ≠ 0 := fun h => hdata (List.length_eq_zero_iff.mp h)
  rw [readChunks, hline, Option.bind_some]
  dsimp only
  rw [hplain, readNumeral_numeral (by omega) (by omega), Option.bind_some, if_neg hpos, List.append_assoc,
    List.drop_left, if_pos (show (crlf ++ rest).take 2 = crlf from rfl), ← List.drop_drop, List.drop_left,
      List.take_left]
  rfl

/-- Chunks, none of them empty, carry their bytes. -/
theorem readChunks_chunks {chunks : List (List Byte)} (hchunks : ∀ data ∈ chunks, data ≠ [])
    (hfuel : chunks.length + 2 ≤ fuel) :
    readChunks fuel (chunks.flatMap chunk ++ lastChunk) = some (chunks.flatten, []) := by
  induction chunks generalizing fuel with
  | nil =>
    obtain ⟨fuel, rfl⟩ := Nat.exists_eq_add_of_le' hfuel
    exact readChunks_lastChunk _
  | cons data chunks ih =>
    obtain ⟨fuel, rfl⟩ := Nat.exists_eq_add_of_le' (Nat.le_trans (Nat.succ_le_succ (Nat.zero_le _)) hfuel)
    rw [List.flatMap_cons, List.append_assoc, readChunks_chunk (hchunks data List.mem_cons_self),
      ih (fun data hdata => hchunks data (List.mem_cons_of_mem _ hdata)) (by rw [List.length_cons] at hfuel; omega)]
    rfl

theorem length_chunks (chunks : List (List Byte)) : chunks.length ≤ (chunks.flatMap chunk).length := by
  induction chunks with
  | nil => exact Nat.le_refl _
  | cons data chunks ih =>
    rw [List.flatMap_cons, List.length_append, List.length_cons, chunk]
    simp only [List.length_append, crlf, List.length_cons]
    omega

theorem decode_chunks {chunks : List (List Byte)} (hchunks : ∀ data ∈ chunks, data ≠ []) :
    decode (chunks.flatMap chunk ++ lastChunk) = some chunks.flatten := by
  have hlength := length_chunks chunks
  have hlast : lastChunk.length = 5 := rfl
  rw [decode, readChunks_chunks hchunks (by rw [List.length_append]; omega)]
  rfl

/-- The coding takes more bytes than it carries. -/
theorem length_lt_chunks (chunks : List (List Byte)) :
    chunks.flatten.length < (chunks.flatMap chunk ++ lastChunk).length := by
  have hlast : lastChunk.length = 5 := rfl
  have hle : chunks.flatten.length ≤ (chunks.flatMap chunk).length := by
    induction chunks with
    | nil => exact Nat.le_refl _
    | cons data chunks ih =>
      rw [List.flatten_cons, List.flatMap_cons, List.length_append, List.length_append, chunk]
      simp only [List.length_append]
      omega
  rw [List.length_append]
  omega

end Chunked
