import Citizen.Net.Buffer

open Bits

namespace net

/-- The largest size of a vector. -/
def maxSize : Nat := 2 ^ 63 - 1

/-- A sum of `size_t`. -/
def sumSize (a b : Nat) : Nat := (a + b) % 2 ^ 64

/-- `std::vector<uint8_t>`. -/
structure ByteVector where
  bytes : List Byte
  small : bytes.length ≤ maxSize

namespace ByteVector

/-- `resize`. -/
def resize (v : ByteVector) (size : Nat) (h : size ≤ maxSize) : ByteVector where
  bytes := v.bytes.take size ++ List.replicate (size - v.bytes.length) 0
  small := by
    rw [List.length_append, List.length_take, List.length_replicate]
    omega

/-- `memcpy` to an offset. -/
def copyTo (v : ByteVector) (offset : Nat) (data : List Byte) (h : offset + data.length ≤ v.bytes.length) :
    ByteVector where
  bytes := v.bytes.take offset ++ data ++ v.bytes.drop (offset + data.length)
  small := by
    have hsmall := v.small
    rw [List.length_append, List.length_append, List.length_take, List.length_drop]
    omega

end ByteVector

/-- A `Buffer`. Its bytes are those of a shared vector. -/
structure Buffer where
  vector : Nat
  curOff : Nat := 0
  atEnd : Bool := false

/-- The buffers that there are, and their vectors. -/
structure Buffers where
  vectors : Nat → ByteVector
  buffers : Nat → Buffer

/-- What a call comes to. It is undefined when memory is used that does not belong to a vector. -/
inductive Outcome (α : Type)
  | undefined
  | exception
  | returned (value : α)

namespace Buffers

variable (m : Buffers) (i : Nat)

def bytes : List Byte := (m.vectors (m.buffers i).vector).bytes

/-- `GetLength`. -/
def size : Nat := (m.bytes i).length

/-- `GetCurOffset`. -/
def offset : Nat := (m.buffers i).curOff

def setVector (v : ByteVector) : Buffers := { m with vectors := Function.update m.vectors (m.buffers i).vector v }

def setEnd : Buffers := { m with buffers := Function.update m.buffers i { m.buffers i with atEnd := true } }

/-- `Read` sets the flag when it reaches the end. -/
def noteEnd (last : Nat) : Buffers := if m.size i ≤ last then m.setEnd i else m

def setOffset (curOff : Nat) : Buffers := { m with buffers := Function.update m.buffers i { m.buffers i with curOff } }

/-- `Seek`, and `Reset` with 0. -/
def seek (position : Nat) : Buffers := if position ≤ m.size i then m.setOffset i position else m

/-- `Read`: what it returns, and what it writes to its destination. `sizeof(length)` is 8. -/
def read (length : Nat) : Outcome (Bool × List Byte × Buffers) :=
  let last := sumSize (m.offset i) length
  let m := m.noteEnd i last
  if m.size i < last then .returned (false, List.replicate 8 0xCE, m)
  else if m.offset i + length ≤ m.size i then
    .returned (true, ((m.bytes i).drop (m.offset i)).take length, m.setOffset i (m.offset i + length))
  else .undefined

/-- `EnsureWritableSize`. -/
def ensureWritableSize (length : Nat) : Outcome Buffers :=
  let last := sumSize (m.offset i) length
  if m.size i ≤ last then
    if h : last ≤ maxSize then .returned (m.setVector i ((m.vectors (m.buffers i).vector).resize last h))
      else .exception
  else .returned m

/-- The bytes are copied to the cursor, which moves on. -/
def put (data : List Byte) : Outcome Buffers :=
  if h : m.offset i + data.length ≤ m.size i then
    .returned ((m.setVector i ((m.vectors (m.buffers i).vector).copyTo (m.offset i) data h)).setOffset i
      (m.offset i + data.length))
  else .undefined

/-- `Write`. -/
def write (data : List Byte) : Outcome Buffers :=
  match m.ensureWritableSize i data.length with
  | .returned m => m.put i data
  | .exception => .exception
  | .undefined => .undefined

/-- `ReadTo` another buffer, or the same one. -/
def readTo (j length : Nat) : Outcome (Bool × Buffers) :=
  match m.ensureWritableSize j length with
  | .returned m =>
    if m.size i < sumSize (m.offset i) length then .returned (false, m)
    else if m.offset i + length ≤ m.size i then
      match m.put j (((m.bytes i).drop (m.offset i)).take length) with
      | .returned m => .returned (true, m.setOffset i (m.offset i + length))
      | .exception => .exception
      | .undefined => .undefined
    else .undefined
  | .exception => .exception
  | .undefined => .undefined

/-- `IsAtEnd`. -/
def isAtEnd : Bool := (m.buffers i).atEnd || m.offset i == m.size i

/-- `Write`s one after another. -/
def writeAll : Buffers → List (List Byte) → Outcome Buffers
  | m, [] => .returned m
  | m, data :: datas =>
    match m.write i data with
    | .returned m => m.writeAll datas
    | .exception => .exception
    | .undefined => .undefined

/-- `Read`s one after another, with what each returns and writes. -/
def readAll : Buffers → List Nat → Outcome (List (Bool × List Byte) × Buffers)
  | m, [] => .returned ([], m)
  | m, length :: lengths =>
    match m.read i length with
    | .returned (success, written, m) =>
      match m.readAll lengths with
      | .returned (results, m) => .returned ((success, written) :: results, m)
      | .exception => .exception
      | .undefined => .undefined
    | .exception => .exception
    | .undefined => .undefined

variable {m m' : Buffers} {i j length : Nat} {success : Bool} {written : List Byte}

@[simp] theorem bytes_setEnd : (m.setEnd i).bytes j = m.bytes j := by
  by_cases hij : j = i
  · subst hij
    simp [bytes, setEnd]
  · simp [bytes, setEnd, hij]

@[simp] theorem offset_setEnd : (m.setEnd i).offset j = m.offset j := by
  by_cases hij : j = i
  · subst hij
    simp [offset, setEnd]
  · simp [offset, setEnd, hij]

@[simp] theorem bytes_setOffset {curOff : Nat} : (m.setOffset i curOff).bytes j = m.bytes j := by
  by_cases hij : j = i
  · subst hij
    simp [bytes, setOffset]
  · simp [bytes, setOffset, hij]

@[simp] theorem size_setOffset {curOff : Nat} : (m.setOffset i curOff).size j = m.size j :=
    congrArg List.length bytes_setOffset

@[simp] theorem offset_setOffset {curOff : Nat} : (m.setOffset i curOff).offset i = curOff := by
  simp [offset, setOffset]

/-- The buffers have one vector. -/
def Shared (m : Buffers) (i j : Nat) : Prop := (m.buffers i).vector = (m.buffers j).vector

instance : Decidable (m.Shared i j) := inferInstanceAs (Decidable (_ = _))

@[simp] theorem offset_setVector {v : ByteVector} : (m.setVector j v).offset i = m.offset i := rfl

@[simp] theorem bytes_setVector {v : ByteVector} :
    (m.setVector j v).bytes i = if m.Shared i j then v.bytes else m.bytes i := by
  by_cases hshared : m.Shared i j
  · rw [if_pos hshared]
    have hvector : (m.buffers i).vector = (m.buffers j).vector := hshared
    simp [bytes, setVector, hvector]
  · rw [if_neg hshared]
    have hvector : (m.buffers i).vector ≠ (m.buffers j).vector := hshared
    simp [bytes, setVector, hvector]

theorem Shared.bytes_eq (hshared : m.Shared i j) : m.bytes i = m.bytes j :=
  congrArg (fun vector => (m.vectors vector).bytes) hshared

theorem Shared.size_eq (hshared : m.Shared i j) : m.size i = m.size j := congrArg List.length hshared.bytes_eq

theorem size_le (m : Buffers) (i : Nat) : m.size i ≤ maxSize := (m.vectors (m.buffers i).vector).small

/-- A place within a vector is not wrapped. -/
theorem sumSize_eq {a b : Nat} (h : a + b ≤ m.size i) : sumSize a b = a + b := by
  have hsize := m.size_le i
  unfold maxSize at hsize
  exact Nat.mod_eq_of_lt (by omega)

@[simp] theorem bytes_noteEnd {last : Nat} : (m.noteEnd i last).bytes j = m.bytes j := by
  unfold noteEnd
  split
  · exact bytes_setEnd
  · rfl

@[simp] theorem offset_noteEnd {last : Nat} : (m.noteEnd i last).offset j = m.offset j := by
  unfold noteEnd
  split
  · exact offset_setEnd
  · rfl

@[simp] theorem size_noteEnd {last : Nat} : (m.noteEnd i last).size j = m.size j := congrArg List.length bytes_noteEnd

/-- A read that fits. -/
theorem read_fits (hfits : m.offset i + length ≤ m.size i) :
    ∃ m', m.read i length = .returned (true, ((m.bytes i).drop (m.offset i)).take length, m') ∧ m'.bytes = m.bytes ∧
      m'.offset i = m.offset i + length := by
  have hsum := sumSize_eq hfits
  have hread : m.read i length = .returned (true, ((m.bytes i).drop (m.offset i)).take length,
      (m.noteEnd i (m.offset i + length)).setOffset i (m.offset i + length)) := by
    unfold read
    simp only [hsum, size_noteEnd, offset_noteEnd, bytes_noteEnd]
    rw [if_neg (by omega), if_pos hfits]
  refine ⟨_, hread, ?_, offset_setOffset⟩
  funext k
  rw [bytes_setOffset, bytes_noteEnd]

/-- A read that fails. -/
theorem read_fails (hlast : m.size i < sumSize (m.offset i) length) :
    m.read i length = .returned (false, List.replicate 8 0xCE, m.noteEnd i (sumSize (m.offset i) length)) := by
  unfold read
  simp only [size_noteEnd]
  rw [if_pos hlast]

/-- A read that is taken to fit and goes past the end. -/
theorem read_wraps (hlast : sumSize (m.offset i) length ≤ m.size i) (hfits : m.size i < m.offset i + length) :
    m.read i length = .undefined := by
  unfold read
  simp only [size_noteEnd, offset_noteEnd]
  rw [if_neg (by omega), if_neg (by omega)]

/-- `Read` returns, and when it fails it writes to its destination of `length` bytes only, and leaves the buffer
alone. -/
def ReadSafe (m : Buffers) (i length : Nat) : Prop :=
  ∃ success written m', m.read i length = .returned (success, written, m') ∧
    (success = false → written.length ≤ length ∧ m'.bytes = m.bytes ∧ m'.offset = m.offset)

/-- `length` bytes are there, or as many as are written when they are not. -/
theorem readSafe_iff : m.ReadSafe i length ↔
    m.offset i + length ≤ m.size i ∨ (m.size i < sumSize (m.offset i) length ∧ 8 ≤ length) := by
  by_cases hfits : m.offset i + length ≤ m.size i
  · obtain ⟨m', hread, -, -⟩ := read_fits hfits
    refine ⟨fun _ => .inl hfits, fun _ => ⟨true, _, m', hread, ?_⟩⟩
    intro hfalse
    cases hfalse
  by_cases hlast : m.size i < sumSize (m.offset i) length
  · have hread := read_fails hlast
    constructor
    · rintro ⟨success, written, m', hreturned, hsafe⟩
      rw [hread] at hreturned
      cases hreturned
      refine .inr ⟨hlast, ?_⟩
      have hlength := (hsafe rfl).1
      rwa [List.length_replicate] at hlength
    · intro hcond
      refine ⟨false, _, _, hread, fun _ => ⟨?_, ?_, ?_⟩⟩
      · rw [List.length_replicate]
        exact (hcond.resolve_left hfits).2
      · exact funext fun _ => bytes_noteEnd
      · exact funext fun _ => offset_noteEnd
  · have hread := read_wraps (Nat.le_of_not_lt hlast) (Nat.lt_of_not_le hfits)
    constructor
    · rintro ⟨success, written, m', hreturned, -⟩
      rw [hread] at hreturned
      cases hreturned
    · intro hcond
      exact absurd (hcond.resolve_left hfits).1 hlast

/-- The size of a buffer once there is place in another one. -/
def sizeAfter (m : Buffers) (i j length : Nat) : Nat :=
  if m.Shared i j then max (m.size j) (sumSize (m.offset j) length) else m.size i

/-- Place is made with zeroes at the end of the vector. -/
theorem ensureWritableSize_returned (h : m.ensureWritableSize j length = .returned m') :
    m'.offset = m.offset ∧
      m'.bytes i = m.bytes i ++ List.replicate (m.sizeAfter i j length - m.size i) 0 := by
  unfold ensureWritableSize at h
  dsimp only at h
  by_cases hlast : m.size j ≤ sumSize (m.offset j) length
  · rw [if_pos hlast] at h
    by_cases hmax : sumSize (m.offset j) length ≤ maxSize
    · rw [dif_pos hmax] at h
      cases h
      refine ⟨rfl, ?_⟩
      rw [bytes_setVector, sizeAfter]
      by_cases hshared : m.Shared i j
      · rw [if_pos hshared, if_pos hshared, hshared.bytes_eq, hshared.size_eq, Nat.max_eq_right hlast]
        exact congrArg (· ++ _) (List.take_of_length_le hlast)
      · rw [if_neg hshared, if_neg hshared, Nat.sub_self, List.replicate_zero, List.append_nil]
    · rw [dif_neg hmax] at h
      cases h
  · rw [if_neg hlast] at h
    cases h
    refine ⟨rfl, ?_⟩
    have hsize : m.sizeAfter i j length - m.size i = 0 := by
      unfold sizeAfter
      split
      · rename_i hshared
        have hsize := Shared.size_eq hshared
        omega
      · omega
    rw [hsize, List.replicate_zero, List.append_nil]

/-- There is no place beyond the largest size. -/
theorem ensureWritableSize_cases (m : Buffers) (j length : Nat) :
    (m.ensureWritableSize j length = .exception ∧ m.size j ≤ sumSize (m.offset j) length ∧
        maxSize < sumSize (m.offset j) length) ∨
      ((∃ m', m.ensureWritableSize j length = .returned m') ∧
        ¬ (m.size j ≤ sumSize (m.offset j) length ∧ maxSize < sumSize (m.offset j) length)) := by
  unfold ensureWritableSize
  dsimp only
  by_cases hlast : m.size j ≤ sumSize (m.offset j) length
  · rw [if_pos hlast]
    by_cases hmax : sumSize (m.offset j) length ≤ maxSize
    · rw [dif_pos hmax]
      exact .inr ⟨⟨_, rfl⟩, fun h => absurd h.2 (Nat.not_lt.2 hmax)⟩
    · rw [dif_neg hmax]
      exact .inl ⟨rfl, hlast, Nat.lt_of_not_le hmax⟩
  · rw [if_neg hlast]
    exact .inr ⟨⟨m, rfl⟩, fun h => absurd h.1 hlast⟩

theorem size_le_sizeAfter (m : Buffers) (i j length : Nat) : m.size i ≤ m.sizeAfter i j length := by
  unfold sizeAfter
  split
  · rename_i hshared
    have hsize := Shared.size_eq hshared
    omega
  · exact Nat.le_refl _

theorem size_ensureWritableSize (h : m.ensureWritableSize j length = .returned m') (i : Nat) :
    m'.size i = m.sizeAfter i j length := by
  have hbytes := (ensureWritableSize_returned (i := i) h).2
  have hle := m.size_le_sizeAfter i j length
  rw [size, hbytes, List.length_append, List.length_replicate]
  exact Nat.add_sub_cancel' hle

/-- `ReadTo` uses the bytes of the vectors only, and when it fails it leaves both buffers alone. -/
def ReadToSafe (m : Buffers) (i j length : Nat) : Prop :=
  m.readTo i j length ≠ .undefined ∧
    ∀ m', m.readTo i j length = .returned (false, m') → m'.bytes i = m.bytes i ∧ m'.bytes j = m.bytes j ∧
      m'.offset i = m.offset i ∧ m'.offset j = m.offset j

/-- The other buffer cannot be that large, or it has place already and the bytes are not there, or everything fits. -/
def ReadToFits (m : Buffers) (i j length : Nat) : Prop :=
  (m.size j ≤ sumSize (m.offset j) length ∧ maxSize < sumSize (m.offset j) length) ∨
    (m.sizeAfter i j length < sumSize (m.offset i) length ∧ sumSize (m.offset j) length ≤ m.size j) ∨
    (m.offset i + length ≤ m.sizeAfter i j length ∧ m.offset j + length ≤ m.sizeAfter j j length)

/-- The bytes are not there, and the other buffer has been made to fit them. -/
theorem readTo_fails (hgrown : m.ensureWritableSize j length = .returned m')
    (hlast : m.sizeAfter i j length < sumSize (m.offset i) length) :
    m.readTo i j length = .returned (false, m') ∧
      (sumSize (m.offset j) length ≤ m.size j → m'.bytes i = m.bytes i ∧ m'.bytes j = m.bytes j ∧
        m'.offset i = m.offset i ∧ m'.offset j = m.offset j) := by
  obtain ⟨hoffset, -⟩ := ensureWritableSize_returned (i := i) hgrown
  constructor
  · unfold readTo
    rw [hgrown]
    dsimp only
    rw [size_ensureWritableSize hgrown, hoffset, if_pos hlast]
  · intro hplace
    have hsize : ∀ k, m.sizeAfter k j length = m.size k := by
      intro k
      unfold sizeAfter
      split
      · rename_i hshared
        rw [hshared.size_eq, Nat.max_eq_left hplace]
      · rfl
    have hbytes : ∀ k, m'.bytes k = m.bytes k := by
      intro k
      rw [(ensureWritableSize_returned (i := k) hgrown).2, hsize, Nat.sub_self, List.replicate_zero, List.append_nil]
    exact ⟨hbytes i, hbytes j, congrFun hoffset i, congrFun hoffset j⟩

/-- The bytes are taken to be there. -/
theorem readTo_grown (hgrown : m.ensureWritableSize j length = .returned m')
    (hlast : ¬ m.sizeAfter i j length < sumSize (m.offset i) length) :
    (m.readTo i j length ≠ .undefined ↔
        m.offset i + length ≤ m.sizeAfter i j length ∧ m.offset j + length ≤ m.sizeAfter j j length) ∧
      ∀ m'', m.readTo i j length ≠ .returned (false, m'') := by
  have hsize := size_ensureWritableSize hgrown
  obtain ⟨hoffset, -⟩ := ensureWritableSize_returned (i := i) hgrown
  unfold readTo
  rw [hgrown]
  dsimp only
  rw [hsize, hoffset, if_neg hlast]
  by_cases hthere : m.offset i + length ≤ m.sizeAfter i j length
  · rw [if_pos hthere]
    have hlength : (((m'.bytes i).drop (m.offset i)).take length).length = length := by
      have hthere' := hthere
      rw [← hsize, size] at hthere'
      rw [List.length_take, List.length_drop]
      omega
    have hput : m'.offset j + (((m'.bytes i).drop (m.offset i)).take length).length ≤ m'.size j ↔
        m.offset j + length ≤ m.sizeAfter j j length := by
      rw [hlength, hsize, hoffset]
    unfold put
    by_cases hplace : m.offset j + length ≤ m.sizeAfter j j length
    · rw [dif_pos (hput.2 hplace)]
      simp [hthere, hplace]
    · rw [dif_neg (mt hput.1 hplace)]
      simp [hplace]
  · rw [if_neg hthere]
    simp [hthere]

theorem readToSafe_iff : m.ReadToSafe i j length ↔ m.ReadToFits i j length := by
  unfold ReadToSafe ReadToFits
  obtain ⟨hexception, hlast, hmax⟩ | ⟨⟨m', hgrown⟩, hsmall⟩ := m.ensureWritableSize_cases j length
  · have hreadTo : m.readTo i j length = .exception := by
      unfold readTo
      rw [hexception]
    rw [hreadTo]
    refine ⟨fun _ => .inl ⟨hlast, hmax⟩, fun _ => ⟨by simp, ?_⟩⟩
    intro m' h
    cases h
  have hsizej : m.sizeAfter j j length = max (m.size j) (sumSize (m.offset j) length) := if_pos rfl
  by_cases hlast : m.sizeAfter i j length < sumSize (m.offset i) length
  · obtain ⟨hreadTo, hkept⟩ := readTo_fails hgrown hlast
    have hunfit : ¬ m.offset i + length ≤ m.sizeAfter i j length := by
      rw [← size_ensureWritableSize hgrown]
      intro hfits
      have hsum := sumSize_eq hfits
      rw [size_ensureWritableSize hgrown] at hfits
      omega
    rw [hreadTo]
    constructor
    · rintro ⟨-, hsafe⟩
      obtain ⟨-, hbytes, -, -⟩ := hsafe m' rfl
      have hsize : m.sizeAfter j j length = m.size j := by
        rw [← size_ensureWritableSize hgrown]
        exact congrArg List.length hbytes
      exact .inr (.inl ⟨hlast, by omega⟩)
    · intro hfits
      have hplace : sumSize (m.offset j) length ≤ m.size j := by
        obtain h | h | h := hfits
        · exact absurd h hsmall
        · exact h.2
        · exact absurd h.1 hunfit
      refine ⟨by simp, fun m'' h => ?_⟩
      cases h
      exact hkept hplace
  · obtain ⟨hdefined, hsucceeds⟩ := readTo_grown hgrown hlast
    constructor
    · rintro ⟨hsafe, -⟩
      exact .inr (.inr (hdefined.1 hsafe))
    · rintro (h | h | h)
      · exact absurd h hsmall
      · exact absurd h.1 hlast
      · exact ⟨hdefined.2 h, fun m'' hfails => absurd hfails (hsucceeds m'')⟩

theorem put_returned {data : List Byte} (h : m.put i data = .returned m') :
    ∃ written rest, written.length = m.offset i ∧ (m.offset i ≤ m.size i → written = (m.bytes i).take (m.offset i)) ∧
      m'.bytes i = written ++ data ++ rest ∧ m'.offset i = m.offset i + data.length := by
  unfold put at h
  split at h
  · rename_i hfits
    cases h
    refine ⟨(m.bytes i).take (m.offset i), (m.bytes i).drop (m.offset i + data.length), ?_, fun _ => rfl, ?_,
      offset_setOffset⟩
    · rw [List.length_take]
      unfold size at hfits
      omega
    · rw [bytes_setOffset, bytes_setVector]
      exact if_pos rfl
  · cases h

/-- What is before the cursor stays, and what is written comes after it. -/
theorem write_returned {data : List Byte} (h : m.write i data = .returned m') :
    ∃ written rest, written.length = m.offset i ∧ (m.offset i ≤ m.size i → written = (m.bytes i).take (m.offset i)) ∧
      m'.bytes i = written ++ data ++ rest ∧ m'.offset i = m.offset i + data.length := by
  unfold write at h
  split at h
  · rename_i m₁ hgrown
    obtain ⟨hoffset, hbytes⟩ := ensureWritableSize_returned (i := i) hgrown
    obtain ⟨written, rest, hlength, hwritten, hput, hput_offset⟩ := put_returned h
    rw [hoffset] at hlength hwritten hput_offset
    refine ⟨written, rest, hlength, ?_, hput, hput_offset⟩
    intro hle
    have hle' : m.offset i ≤ m₁.size i := by
      rw [size_ensureWritableSize hgrown]
      exact Nat.le_trans hle (m.size_le_sizeAfter i i data.length)
    rw [hwritten hle', hbytes, List.take_append_of_le_length hle]
  · cases h
  · cases h

/-- So do the bytes of all writes. -/
theorem writeAll_returned {datas : List (List Byte)} (h : m.writeAll i datas = .returned m')
    (hle : m.offset i ≤ m.size i) :
    ∃ rest, m'.bytes i = (m.bytes i).take (m.offset i) ++ datas.flatten ++ rest := by
  induction datas generalizing m with
  | nil =>
    cases h
    exact ⟨(m'.bytes i).drop (m'.offset i), by simp⟩
  | cons data datas ih =>
    rw [writeAll] at h
    split at h
    · rename_i m₁ hwrite
      obtain ⟨written, rest, hlength, hwritten, hbytes, hoffset⟩ := write_returned hwrite
      have hdone : (written ++ data).length = m₁.offset i := by
        rw [List.length_append, hlength, hoffset]
      have hle₁ : m₁.offset i ≤ m₁.size i := by
        rw [size, hbytes, List.length_append, hdone]
        exact Nat.le_add_right _ _
      obtain ⟨rest', hrest⟩ := ih h hle₁
      refine ⟨rest', ?_⟩
      rw [hrest, hbytes, List.take_left' hdone, hwritten hle, List.flatten_cons, List.append_assoc _ data]
    · cases h
    · cases h

/-- Bytes after the cursor are read in any pieces. -/
theorem readAll_flatten {datas : List (List Byte)} {before rest : List Byte}
    (hbytes : m.bytes i = before ++ datas.flatten ++ rest) (hoffset : m.offset i = before.length) :
    ∃ m', m.readAll i (datas.map List.length) = .returned (datas.map (Prod.mk true), m') := by
  induction datas generalizing m before with
  | nil => exact ⟨m, rfl⟩
  | cons data datas ih =>
    rw [List.flatten_cons] at hbytes
    have hfits : m.offset i + data.length ≤ m.size i := by
      rw [size, hbytes, hoffset]
      simp only [List.length_append]
      omega
    obtain ⟨m₁, hread, hbytes₁, hoffset₁⟩ := read_fits hfits
    have hdata : ((m.bytes i).drop (m.offset i)).take data.length = data := by
      rw [hbytes, hoffset, List.append_assoc before, List.append_assoc data, List.drop_left, List.take_left]
    rw [hdata] at hread
    have hnext : m₁.bytes i = (before ++ data) ++ datas.flatten ++ rest := by
      rw [hbytes₁, hbytes]
      simp only [List.append_assoc]
    obtain ⟨m', hall⟩ := ih hnext (by rw [hoffset₁, hoffset, List.length_append])
    refine ⟨m', ?_⟩
    rw [List.map_cons, readAll, hread]
    dsimp only
    rw [hall]
    rfl

/-- After any `Write`s, the same bytes are read from where they start. -/
def ReadsBack (m : Buffers) (i : Nat) : Prop :=
  ∀ datas m', m.writeAll i datas = .returned m' →
    ∃ m'', (m'.seek i (m.offset i)).readAll i (datas.map List.length) = .returned (datas.map (Prod.mk true), m'')

theorem readsBack (m : Buffers) (i : Nat) : m.ReadsBack i := by
  intro datas m' h
  obtain - | ⟨data, datas⟩ := datas
  · exact ⟨_, rfl⟩
  rw [writeAll] at h
  split at h
  · rename_i m₁ hwrite
    obtain ⟨written, rest, hlength, -, hbytes, hoffset⟩ := write_returned hwrite
    have hdone : (written ++ data).length = m₁.offset i := by
      rw [List.length_append, hlength, hoffset]
    have hle : m₁.offset i ≤ m₁.size i := by
      rw [size, hbytes, List.length_append, hdone]
      exact Nat.le_add_right _ _
    obtain ⟨rest', hrest⟩ := writeAll_returned h hle
    rw [hbytes, List.take_left' hdone, List.append_assoc written, ← List.flatten_cons] at hrest
    have hseek : m'.seek i (m.offset i) = m'.setOffset i (m.offset i) := by
      unfold seek
      rw [if_pos]
      rw [size, hrest, ← hlength]
      simp only [List.length_append]
      omega
    rw [hseek]
    exact readAll_flatten (by rw [bytes_setOffset]; exact hrest) (by rw [offset_setOffset, hlength])
  · cases h
  · cases h

/-- After a `Read` that failed, a later one that fits gets its bytes. -/
def ReadsLater (m : Buffers) (i length : Nat) : Prop :=
  ∀ written m', m.read i length = .returned (false, written, m') → ∀ n, m.offset i + n ≤ m.size i →
    ∃ m'', m'.read i n = .returned (true, ((m.bytes i).drop (m.offset i)).take n, m'')

theorem read_returned_false (h : m.read i length = .returned (false, written, m')) :
    m.size i < sumSize (m.offset i) length ∧ m'.bytes = m.bytes ∧ m'.offset = m.offset := by
  by_cases hlast : m.size i < sumSize (m.offset i) length
  · rw [read_fails hlast] at h
    cases h
    exact ⟨hlast, funext fun _ => bytes_noteEnd, funext fun _ => offset_noteEnd⟩
  · unfold read at h
    simp only [size_noteEnd] at h
    rw [if_neg hlast] at h
    split at h <;> cases h

theorem readsLater (m : Buffers) (i length : Nat) : m.ReadsLater i length := by
  intro written m' h n hfits
  obtain ⟨-, hbytes, hoffset⟩ := read_returned_false h
  have hfits' : m'.offset i + n ≤ m'.size i := by
    rw [size, hbytes, hoffset]
    exact hfits
  obtain ⟨m'', hread, -, -⟩ := read_fits hfits'
  rw [hbytes, hoffset] at hread
  exact ⟨m'', hread⟩

theorem atEnd_noteEnd (m : Buffers) (i last : Nat) :
    ((m.noteEnd i last).buffers i).atEnd = ((m.buffers i).atEnd || decide (m.size i ≤ last)) := by
  unfold noteEnd
  by_cases hlast : m.size i ≤ last
  · rw [if_pos hlast]
    simp [setEnd, hlast]
  · rw [if_neg hlast]
    simp [hlast]

/-- The flag stays, and a `Read` sets it when it reaches the end, also when it fails. -/
theorem isAtEnd_read (h : m.read i length = .returned (success, written, m')) :
    m'.isAtEnd i = ((m.buffers i).atEnd || decide (m.size i ≤ sumSize (m.offset i) length)) := by
  have hflag := atEnd_noteEnd m i (sumSize (m.offset i) length)
  by_cases hfits : m.offset i + length ≤ m.size i
  · have hsum := sumSize_eq hfits
    unfold read at h
    simp only [size_noteEnd, offset_noteEnd, bytes_noteEnd] at h
    rw [if_neg (by omega), if_pos hfits] at h
    cases h
    have hkept : (((m.noteEnd i (sumSize (m.offset i) length)).setOffset i (m.offset i + length)).buffers i).atEnd =
        ((m.noteEnd i (sumSize (m.offset i) length)).buffers i).atEnd := by
      simp [setOffset]
    rw [isAtEnd, hkept, hflag, offset_setOffset, size_setOffset, size_noteEnd, hsum]
    have hreached : (m.offset i + length == m.size i) = decide (m.size i ≤ m.offset i + length) := by
      rw [Bool.eq_iff_iff, beq_iff_eq, decide_eq_true_iff]
      omega
    rw [hreached, Bool.or_assoc, Bool.or_self]
  · by_cases hlast : m.size i < sumSize (m.offset i) length
    · rw [read_fails hlast] at h
      cases h
      rw [isAtEnd, hflag, decide_eq_true (Nat.le_of_lt hlast), Bool.or_true, Bool.true_or]
    · rw [read_wraps (Nat.le_of_not_lt hlast) (Nat.lt_of_not_le hfits)] at h
      cases h

/-- `m` is safe for its buffers and any length. -/
structure Safe (m : Buffers) (i j length : Nat) : Prop where
  read : m.ReadSafe i length
  readTo : m.ReadToSafe i j length
  readsBack : m.ReadsBack i
  readsLater : m.ReadsLater i length

/-- A read is safe exactly where its bytes are there, or where the sum of offset and length tells that they are not
and eight bytes may be written in their place; `ReadTo` also needs room in the other buffer. Nothing is assumed
of the buffers: they may share their bytes. -/
theorem safe_iff (m : Buffers) (i j length : Nat) :
    m.Safe i j length ↔
      (m.offset i + length ≤ m.size i ∨ m.size i < sumSize (m.offset i) length ∧ 8 ≤ length) ∧
        m.ReadToFits i j length := by
  constructor
  · intro h
    exact ⟨readSafe_iff.1 h.read, readToSafe_iff.1 h.readTo⟩
  · rintro ⟨hread, hreadTo⟩
    exact ⟨readSafe_iff.2 hread, readToSafe_iff.2 hreadTo, m.readsBack i, m.readsLater i length⟩

/-- A failing read of one byte writes eight, and a failing `ReadTo` makes the other buffer larger. -/
theorem shortRead_overruns :
    let m : Buffers := { vectors := fun _ => ⟨[], Nat.zero_le _⟩, buffers := fun k => { vector := k } }
    (∃ m', m.read 0 1 = .returned (false, List.replicate 8 0xCE, m')) ∧
      (∃ m', m.readTo 0 1 1 = .returned (false, m') ∧ m.size 1 = 0 ∧ m'.size 1 = 1) ∧ ¬ m.Safe 0 1 1 := by
  refine ⟨⟨_, rfl⟩, ⟨_, rfl, rfl, rfl⟩, fun h => ?_⟩
  have hread := readSafe_iff.1 h.read
  revert hread
  decide

/-- The values that `Read` gets, while the cursor is within the buffer. -/
theorem read_value {n : Nat} (hn : n ≤ 8) (hoffset : m.offset i ≤ m.size i)
    (h : m.read i n = .returned (success, written, m')) :
    net.read n ((m.bytes i).drop (m.offset i)) =
      (BitVec.ofNat (8 * n) (LittleEndian.value (written.take n)), (m'.bytes i).drop (m'.offset i)) := by
  unfold net.read
  have hleft : ((m.bytes i).drop (m.offset i)).length = m.size i - m.offset i := List.length_drop
  by_cases hfits : m.offset i + n ≤ m.size i
  · obtain ⟨m'', hread, hbytes, hmoved⟩ := read_fits hfits
    rw [hread] at h
    cases h
    rw [if_neg (by omega), List.take_take, Nat.min_self, hbytes, hmoved, List.drop_drop]
  · by_cases hlast : m.size i < sumSize (m.offset i) n
    · rw [read_fails hlast] at h
      cases h
      rw [if_pos (by omega), List.take_replicate, Nat.min_eq_left hn, bytes_noteEnd, offset_noteEnd]
    · rw [read_wraps (Nat.le_of_not_lt hlast) (Nat.lt_of_not_le hfits)] at h
      cases h

end Buffers

end net
