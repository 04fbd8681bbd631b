import Citizen.Arrays.Basic
import Citizen.Net.Buffer

open net

namespace fx.ArrayHandler

variable {MaxElemSize Count : Nat}

/-- An index of an array of the handler. -/
inductive Index
  | owners (elem : Nat)
  | sizes (elem : Nat)
  | dirtyFlags (elem : Nat)
  | array (offset : Nat)

def Index.InBounds (MaxElemSize Count : Nat) : Index → Prop
  | .owners elem => elem < Count
  | .sizes elem => elem < Count
  | .dirtyFlags elem => elem < Count
  | .array offset => offset < MaxElemSize * Count

/-- The element and the size that an update of any bytes starts with, and the rest. A number that is cut off is
0xCECE. -/
def header (buffer : List (BitVec 8)) : Nat × Nat × List (BitVec 8) :=
  let (elem, buffer) := read 2 buffer
  let (byteSize, buffer) := read 2 buffer
  (elem.toNat, byteSize.toNat, buffer)

/-- An accepted update of an element. -/
def store (handler : ArrayHandler MaxElemSize Count) (client : ClientPtr) (slotId : Nat) (i : Fin Count)
    (byteSize : Nat) (buffer : List (BitVec 8)) : ArrayHandler MaxElemSize Count :=
  { handler with
    owners := Function.update handler.owners i (if byteSize ≠ 0 then some client else none)
    array := readBytes buffer handler.array (i * MaxElemSize) byteSize
    sizes := Function.update handler.sizes i byteSize
    dirtyFlags := Function.update handler.dirtyFlags i fun slot => if slot = slotId then false else allSlots slot }

/-- The indices that it is stored with, after the look at the owner. -/
def storeIndices (MaxElemSize elem byteSize : Nat) (buffer : List (BitVec 8)) : List Index :=
  let stored := if buffer.length < byteSize then 8 else byteSize
  [.owners elem, .array (elem * MaxElemSize)] ++ (List.range stored).map (fun k => .array (elem * MaxElemSize + k)) ++
    [.sizes elem, .dirtyFlags elem]

/-- Another client that is there owns the element. -/
def foreign (handler : ArrayHandler MaxElemSize Count) (alive : List ClientPtr) (client : ClientPtr)
    (i : Fin Count) : Bool :=
  ((handler.owners i).filter (· ∈ alive)).any (· ≠ client)

/-- The indices that `ReadUpdate` uses, and what it returns and leaves. Past the end of the owners nothing is
defined. -/
def readUpdateTraced (handler : ArrayHandler MaxElemSize Count) (alive : List ClientPtr) (client : ClientPtr)
    (slotId : Nat) (buffer : List (BitVec 8)) : List Index × Option (Bool × ArrayHandler MaxElemSize Count) :=
  let (elem, byteSize, buffer) := header buffer
  if Count < elem then ([], some (false, handler))
  else if MaxElemSize < byteSize then ([], some (false, handler))
  else if helem : elem < Count then
    if handler.foreign alive client ⟨elem, helem⟩ then ([.owners elem], some (false, handler))
    else
      (.owners elem :: storeIndices MaxElemSize elem byteSize buffer,
        some (true, handler.store client slotId ⟨elem, helem⟩ byteSize buffer))
  else ([.owners elem], none)

variable {handler handler' : ArrayHandler MaxElemSize Count} {alive : List ClientPtr} {client : ClientPtr}
  {slotId : Nat} {buffer : List (BitVec 8)} {elem byteSize : Nat} {rest : List (BitVec 8)}

/-- Only an element has changed. -/
structure ChangesOnly (i : Fin Count) (handler handler' : ArrayHandler MaxElemSize Count) : Prop where
  index : handler'.index = handler.index
  owners : ∀ j, j ≠ i → handler'.owners j = handler.owners j
  sizes : ∀ j, j ≠ i → handler'.sizes j = handler.sizes j
  dirtyFlags : ∀ j, j ≠ i → handler'.dirtyFlags j = handler.dirtyFlags j
  array : ∀ k, k < i * MaxElemSize ∨ i * MaxElemSize + MaxElemSize ≤ k → handler'.array k = handler.array k

/-- The indices are in bounds, a refused update changes nothing, and an accepted one changes an element, whose bytes
are then bytes of the update. -/
structure ReadsSafely (handler : ArrayHandler MaxElemSize Count) (alive : List ClientPtr) (client : ClientPtr)
    (slotId : Nat) (buffer : List (BitVec 8)) : Prop where
  inBounds : ∀ index ∈ (handler.readUpdateTraced alive client slotId buffer).1, index.InBounds MaxElemSize Count
  refused : ∀ handler', (handler.readUpdateTraced alive client slotId buffer).2 = some (false, handler') →
    handler' = handler
  accepted : ∀ handler', (handler.readUpdateTraced alive client slotId buffer).2 = some (true, handler') →
    ∃ i : Fin Count, i = (header buffer).1 ∧ handler'.content i <+: (header buffer).2.2 ∧
      ChangesOnly i handler handler'

theorem read_two (first second : BitVec 8) (more : List (BitVec 8)) :
    (net.read 2 (first :: second :: more)).1.toNat = first.toNat + 256 * second.toNat ∧
      (net.read 2 (first :: second :: more)).2 = more := by
  have hlength : ¬ (first :: second :: more).length < 2 := by simp
  unfold net.read
  rw [if_neg hlength]
  refine ⟨?_, rfl⟩
  show (first.toNat + 256 * (second.toNat + 256 * 0)) % 2 ^ 16 = _
  omega

/-- Where the update has its numbers, this is `readUpdate`. -/
theorem readUpdateTraced_eq (hlength : 4 ≤ buffer.length) :
    (handler.readUpdateTraced alive client slotId buffer).2 = handler.readUpdate alive client slotId buffer := by
  match buffer, hlength with
  | b₀ :: b₁ :: b₂ :: b₃ :: rest, _ =>
    have hheader : header (b₀ :: b₁ :: b₂ :: b₃ :: rest) =
      (b₀.toNat + 256 * b₁.toNat, b₂.toNat + 256 * b₃.toNat, rest) := by
      obtain ⟨helem, hmore⟩ := read_two b₀ b₁ (b₂ :: b₃ :: rest)
      obtain ⟨hbyteSize, hrest⟩ := read_two b₂ b₃ rest
      unfold header
      dsimp only
      rw [helem, hmore, hbyteSize, hrest]
    rw [readUpdateTraced, readUpdate, hheader, readHeader]
    dsimp only
    by_cases hcount : Count < b₀.toNat + 256 * b₁.toNat
    · rw [if_pos hcount, if_pos hcount]
    rw [if_neg hcount, if_neg hcount]
    by_cases hmax : MaxElemSize < b₂.toNat + 256 * b₃.toNat
    · rw [if_pos hmax, if_pos hmax]
    rw [if_neg hmax, if_neg hmax]
    by_cases helem : b₀.toNat + 256 * b₁.toNat < Count
    · rw [dif_pos helem, dif_pos helem]
      by_cases howner : handler.foreign alive client ⟨_, helem⟩ = true
      · rw [if_pos howner]
        exact (if_pos howner).symm
      · rw [if_neg howner]
        exact (if_neg howner).symm
    · rw [dif_neg helem, dif_neg helem]

/-- The bytes of an element that was stored. -/
theorem content_store (i : Fin Count) (hlength : byteSize ≤ rest.length) :
    (handler.store client slotId i byteSize rest).content i = rest.take byteSize := by
  have hsize : (handler.store client slotId i byteSize rest).sizes i = byteSize := Function.update_self _ _ _
  refine List.ext_getElem (by rw [content, hsize]; simp [hlength]) fun k hk hk' => ?_
  rw [List.length_take] at hk'
  have hbyte : (handler.store client slotId i byteSize rest).array (i * MaxElemSize + k) = rest.getD k 0 := by
    show readBytes rest handler.array (i * MaxElemSize) byteSize (i * MaxElemSize + k) = _
    rw [readBytes, if_neg (by omega), if_pos (by omega), Nat.add_sub_cancel_left]
  rw [List.getElem_take]
  simp only [content, List.getElem_map, List.getElem_range, hbyte]
  exact List.getD_eq_getElem _ _ (by omega)

/-- An update that is stored changes its element. -/
theorem changesOnly_store (i : Fin Count) (hlength : byteSize ≤ rest.length) (hmax : byteSize ≤ MaxElemSize) :
    ChangesOnly i handler (handler.store client slotId i byteSize rest) := by
  refine ⟨rfl, fun j hne => Function.update_of_ne hne _ _, fun j hne => Function.update_of_ne hne _ _,
    fun j hne => Function.update_of_ne hne _ _, fun k hk => ?_⟩
  show readBytes rest handler.array (i * MaxElemSize) byteSize k = _
  rw [readBytes, if_neg (by omega)]
  exact if_neg (by omega)

theorem storeIndices_inBounds (helem : elem < Count) (hpos : 0 < MaxElemSize) (hmax : byteSize ≤ MaxElemSize)
    (hlength : byteSize ≤ rest.length) :
    ∀ index ∈ storeIndices MaxElemSize elem byteSize rest, index.InBounds MaxElemSize Count := by
  have hinside : ∀ k < MaxElemSize, elem * MaxElemSize + k < MaxElemSize * Count := by
    intro k hk
    calc elem * MaxElemSize + k < (elem + 1) * MaxElemSize := by rw [Nat.add_mul]; omega
      _ ≤ Count * MaxElemSize := Nat.mul_le_mul_right _ helem
      _ = MaxElemSize * Count := Nat.mul_comm _ _
  intro index hmem
  unfold storeIndices at hmem
  rw [if_neg (by omega)] at hmem
  rcases List.mem_append.mp hmem with hmem | hlast
  · rcases List.mem_append.mp hmem with hfirst | hstored
    · rcases List.mem_cons.mp hfirst with rfl | hsecond
      · exact helem
      · rw [List.mem_singleton.mp hsecond]
        exact hinside 0 hpos
    · obtain ⟨k, hk, rfl⟩ := List.mem_map.mp hstored
      exact hinside k (Nat.lt_of_lt_of_le (List.mem_range.mp hk) hmax)
  · rcases List.mem_cons.mp hlast with rfl | hsecond
    · exact helem
    · rw [List.mem_singleton.mp hsecond]
      exact helem

theorem readsSafely_of_refused
    (h : handler.readUpdateTraced alive client slotId buffer = ([], some (false, handler))) :
    handler.ReadsSafely alive client slotId buffer := by
  refine ⟨fun index hmem => ?_, fun handler' hresult => ?_, fun handler' hresult => ?_⟩
  · rw [h] at hmem
    exact absurd hmem List.not_mem_nil
  · rw [h] at hresult
    exact (Prod.mk.inj (Option.some.inj hresult)).2.symm
  · rw [h] at hresult
    cases hresult

/-- `ReadUpdate` is safe exactly where it is refused, or stores an element that is there, with all of its bytes. -/
theorem readsSafely_iff (handler : ArrayHandler MaxElemSize Count) (alive : List ClientPtr) (client : ClientPtr)
    (slotId : Nat) (buffer : List (BitVec 8)) : handler.ReadsSafely alive client slotId buffer ↔
      Count < (header buffer).1 ∨ MaxElemSize < (header buffer).2.1 ∨
        ∃ helem : (header buffer).1 < Count, handler.foreign alive client ⟨_, helem⟩ = true ∨
          0 < MaxElemSize ∧ (header buffer).2.1 ≤ (header buffer).2.2.length := by
  have htraced : handler.readUpdateTraced alive client slotId buffer = _ := readUpdateTraced.eq_1 ..
  dsimp only at htraced
  by_cases hcount : Count < (header buffer).1
  · rw [if_pos hcount] at htraced
    exact iff_of_true (readsSafely_of_refused htraced) (.inl hcount)
  rw [if_neg hcount] at htraced
  by_cases hmax : MaxElemSize < (header buffer).2.1
  · rw [if_pos hmax] at htraced
    exact iff_of_true (readsSafely_of_refused htraced) (.inr (.inl hmax))
  rw [if_neg hmax] at htraced
  by_cases helem : (header buffer).1 < Count
  · rw [dif_pos helem] at htraced
    by_cases howner : handler.foreign alive client ⟨_, helem⟩ = true
    · rw [if_pos howner] at htraced
      refine iff_of_true ⟨fun index hmem => ?_, fun handler' hresult => ?_, fun handler' hresult => ?_⟩
        (.inr (.inr ⟨helem, .inl howner⟩))
      · rw [htraced, List.mem_singleton] at hmem
        rw [hmem]
        exact helem
      · rw [htraced] at hresult
        exact (Prod.mk.inj (Option.some.inj hresult)).2.symm
      · rw [htraced] at hresult
        cases hresult
    · rw [if_neg howner] at htraced
      constructor
      · intro h
        refine .inr (.inr ⟨helem, .inr ⟨?_, ?_⟩⟩)
        · have haddress : Index.array ((header buffer).1 * MaxElemSize) ∈
            (handler.readUpdateTraced alive client slotId buffer).1 := by
            rw [htraced]
            simp [storeIndices]
          have hinside : (header buffer).1 * MaxElemSize < MaxElemSize * Count := h.inBounds _ haddress
          by_contra hzero
          rw [Nat.eq_zero_of_not_pos hzero, Nat.zero_mul] at hinside
          exact absurd hinside (Nat.not_lt_zero _)
        · obtain ⟨i, hi, hprefix, -⟩ := h.accepted _ (congrArg Prod.snd htraced)
          obtain rfl : i = ⟨_, helem⟩ := Fin.ext hi
          have hsize : (handler.store client slotId ⟨_, helem⟩ (header buffer).2.1 (header buffer).2.2).sizes
              ⟨_, helem⟩ = (header buffer).2.1 := Function.update_self _ _ _
          have hle := hprefix.length_le
          rwa [content, List.length_map, List.length_range, hsize] at hle
      · rintro (hpast | hlarge | ⟨hthere, hrest⟩)
        · exact absurd hpast hcount
        · exact absurd hlarge hmax
        · obtain ⟨hpos, hlength⟩ := hrest.resolve_left howner
          refine ⟨fun index hmem => ?_, fun handler' hresult => ?_, fun handler' hresult => ?_⟩
          · rw [htraced] at hmem
            rcases List.mem_cons.mp hmem with rfl | hstored
            · exact helem
            · exact storeIndices_inBounds helem hpos (Nat.le_of_not_lt hmax) hlength index hstored
          · rw [htraced] at hresult
            cases hresult
          · rw [htraced] at hresult
            obtain rfl := (Prod.mk.inj (Option.some.inj hresult)).2
            refine ⟨⟨_, helem⟩, rfl, ?_, changesOnly_store _ hlength (Nat.le_of_not_lt hmax)⟩
            rw [content_store _ hlength]
            exact List.take_prefix _ _
  · rw [dif_neg helem] at htraced
    refine iff_of_false (fun h => ?_) ?_
    · have howners : Index.owners (header buffer).1 ∈ (handler.readUpdateTraced alive client slotId buffer).1 := by
        rw [htraced]
        exact List.mem_cons_self
      exact helem (h.inBounds _ howners)
    · rintro (hpast | hlarge | ⟨hthere, -⟩)
      · exact hcount hpast
      · exact hmax hlarge
      · exact helem hthere

/-- The element after the last one is looked at, and a byte that is missing is stored as another one. -/
theorem update_past_the_end :
    let handler : ArrayHandler 128 50 := .new 4 (fun _ => 0) fun _ => 0
    ¬ handler.ReadsSafely [] 0 0 [50, 0, 0, 0] ∧ ¬ handler.ReadsSafely [] 0 0 [49, 0, 2, 0, 7] := by
  intro handler
  constructor
  · intro h
    have howners : Index.owners 50 ∈ (handler.readUpdateTraced [] 0 0 [50, 0, 0, 0]).1 := List.mem_cons_self
    exact absurd (h.inBounds _ howners) (Nat.lt_irrefl 50)
  · intro h
    obtain ⟨i, hi, hprefix, -⟩ := h.accepted (handler.store 0 0 49 2 [7]) rfl
    obtain rfl : i = 49 := Fin.ext hi
    exact absurd hprefix.length_le (by decide)

end fx.ArrayHandler
