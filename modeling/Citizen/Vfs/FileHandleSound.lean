import Citizen.Vfs.FileHandle

open Bits Transition

namespace vfs.RagePackfile7

variable {σ : Type} {b : Backing σ} {entry : Entry} {content data : List Byte} {reached : σ → Nat → Nat → Prop}
  {h : FileHandle σ} {v : View} {fuel i j : Nat}

namespace FileHandle

/-- The stream has given `j` bytes. What is left of its input comes before the offset. -/
structure Buffered (data : List Byte) (reached : σ → Nat → Nat → Prop) (h : FileHandle σ) (i j : Nat) : Prop where
  reached : reached h.strm i j
  input : h.input = (data.drop i).take h.input.length
  offset : i + h.input.length = h.curOffset
  le : h.curOffset ≤ data.length

/-- `data` are the bytes of the entry, and the offset of the entry does not overflow. -/
structure Readable (b : Backing σ) (entry : Entry) (data : List Byte) : Prop where
  bytes : data = (b.bytes.drop (entry.offset * 512)).take entry.size
  length : data.length = entry.size
  offset : entry.offset < 2 ^ 22

theorem readBulk_of_offset (hoffset : h.entry.offset < 2 ^ 22) (toRead : Nat) :
    h.readBulk b toRead = some ((b.bytes.drop (h.entry.offset * 512 + h.curOffset)).take toRead) := by
  rw [readBulk, if_pos (by omega)]

/-- After `fetch` there is input, unless all of it was taken. -/
theorem Buffered.fetch (hbuf : Buffered data reached h i j) (hread : Readable b h.entry data) :
    ∃ input curOffset, h.fetch b = some { h with input, curOffset } ∧
      Buffered data reached { h with input, curOffset } i j ∧ (input ≠ [] ∨ data.length ≤ i) := by
  obtain ⟨hreached, hinput, hoffset, hle⟩ := hbuf
  by_cases hempty : h.input = []
  · have hi : h.curOffset = i := by simpa [hempty] using hoffset.symm
    have hlength := hread.length
    let toRead := min (h.entry.size - h.curOffset) 0x2000
    have htoRead : toRead = min (h.entry.size - i) 0x2000 := by rw [← hi]
    have hbytes : (b.bytes.drop (h.entry.offset * 512 + h.curOffset)).take toRead = (data.drop i).take toRead := by
      rw [hread.bytes, List.drop_take, List.take_take, List.drop_drop, hi]
      congr 1
      omega
    have hcount : ((data.drop i).take toRead).length = toRead := by
      rw [List.length_take, List.length_drop]
      omega
    refine ⟨(data.drop i).take toRead, h.curOffset + toRead, ?_, ⟨hreached, ?_, ?_, ?_⟩, ?_⟩
    · rw [FileHandle.fetch, if_pos hempty, readBulk_of_offset hread.offset, Option.map_some, hbytes, hcount]
    · rw [hcount]
    · rw [hcount, hi]
    · change h.curOffset + toRead ≤ data.length
      omega
    · by_cases hall : data.length ≤ i
      · exact .inr hall
      · refine .inl fun hnil => ?_
        rw [hnil, List.length_nil] at hcount
        omega
  · refine ⟨h.input, h.curOffset, ?_, ⟨hreached, hinput, hoffset, hle⟩, .inl hempty⟩
    rw [FileHandle.fetch, if_neg hempty]

/-- `inflate` on the input that is there. -/
theorem Buffered.inflate (hbuf : Buffered data reached h i j) {room : Nat} {r : Inflated σ}
    (hr : Inflated.Sound data content reached i j h.input room r) :
    Buffered data reached { h with strm := r.strm, input := h.input.drop r.consumed } (i + r.consumed)
      (j + r.output.length) := by
  obtain ⟨hreached, hinput, hoffset, hle⟩ := hbuf
  have hconsumed := hr.consumed
  refine ⟨hr.reached, ?_, ?_, hle⟩
  · change h.input.drop r.consumed = (data.drop (i + r.consumed)).take (h.input.drop r.consumed).length
    rw [List.length_drop, ← List.drop_drop, ← List.drop_take, ← hinput]
  · change i + r.consumed + (h.input.drop r.consumed).length = h.curOffset
    rw [List.length_drop]
    omega

/-- `InternalRead` ends with the next bytes of the content. -/
theorem Buffered.internalRead (hexpands : b.zlib.Expands data content reached) {availOut : Nat}
    (hbuf : Buffered data reached h i j) (hread : Readable b h.entry data)
    (hfuel : (data.length - i) + (content.length - j) < fuel) :
    ∃ strm input curOffset i', h.internalRead b fuel availOut =
        some ({ h with strm, input, curOffset }, (content.drop j).take availOut) ∧
      Buffered data reached { h with strm, input, curOffset } i' (j + ((content.drop j).take availOut).length) := by
  induction fuel generalizing h i j availOut with
  | zero => omega
  | succ fuel ih =>
    cases availOut with
    | zero => exact ⟨h.strm, h.input, h.curOffset, i, by simp [FileHandle.internalRead], by simpa using hbuf⟩
    | succ room =>
      obtain ⟨input, curOffset, hfetch, hbuf', hsome⟩ := hbuf.fetch hread
      have hsound := @Zlib.Expands.next σ b.zlib data content reached hexpands _ i j input (room + 1) hbuf'.reached
        hbuf'.input hsome (Nat.succ_pos room)
      have hnext := hbuf'.inflate hsound
      generalize hr : b.zlib.inflate h.strm input (room + 1) = r at hsound hnext
      rcases hsound.code with ⟨hcode, hend⟩ | ⟨hcode, hprogress, hstop⟩
      · have houtput : r.output = (content.drop j).take (room + 1) := by
          rw [hsound.output, show r.output.length = (content.drop j).length by rw [List.length_drop]; omega,
            List.take_length, List.take_of_length_le]
          have hroom := hsound.fits
          rw [List.length_drop]
          omega
        refine ⟨r.strm, input.drop r.consumed, curOffset, i + r.consumed, ?_, ?_⟩
        · rw [FileHandle.internalRead, hfetch]
          simp [hr, hcode, houtput]
        · rw [← houtput]
          exact hnext
      · have hbound : r.output.length ≤ content.length - j := by
          have hlength := congrArg List.length hsound.output
          rw [List.length_take, List.length_drop] at hlength
          omega
        have htaken : i + r.consumed ≤ data.length := by
          have hconsumed := hsound.consumed
          have hoffset := hbuf'.offset
          have hle := hbuf'.le
          change i + input.length = curOffset at hoffset
          change r.consumed ≤ input.length at hconsumed
          change curOffset ≤ data.length at hle
          omega
        obtain ⟨strm, input', curOffset', i', hrest, hbuf''⟩ :=
          @ih _ (i + r.consumed) (j + r.output.length) (room + 1 - r.output.length) hnext hread (by omega)
        have houtput : r.output ++ (content.drop (j + r.output.length)).take (room + 1 - r.output.length) =
            (content.drop j).take (room + 1) := by
          have hroom := hsound.fits
          rw [show room + 1 = r.output.length + (room + 1 - r.output.length) by omega, List.take_add, ← hsound.output,
            List.drop_drop]
          congr 2
          omega
        refine ⟨strm, input', curOffset', i', ?_, ?_⟩
        · rw [FileHandle.internalRead, hfetch]
          have hcode' : ¬ r.code = zStreamEnd := by rw [hcode]; decide
          have hcode'' : ¬ r.code < 0 := by rw [hcode]; decide
          simp [hr, hcode', hcode'', hrest, houtput]
        · rw [← houtput, List.length_append, ← Nat.add_assoc]
          exact hbuf''

theorem internalRead_zero (b : Backing σ) (fuel : Nat) (h : FileHandle σ) :
    h.internalRead b fuel 0 = some (h, []) := by
  cases fuel <;> rfl

theorem skip_self {target : Nat} (b : Backing σ) (fuel rounds : Nat) (htarget : target ≤ h.curDecOffset) :
    h.skip b fuel target rounds = some h := by
  cases rounds with
  | zero => rw [skip, if_neg (Nat.not_lt.mpr htarget)]
  | succ rounds => rw [skip, if_neg (Nat.not_lt.mpr htarget)]

/-- The loop of `Seek` ends at its target. -/
theorem Buffered.skip (hexpands : b.zlib.Expands data content reached) {target rounds : Nat}
    (hbuf : Buffered data reached h i j) (hread : Readable b h.entry data) (hcur : h.curDecOffset = j)
    (hj : j ≤ target)
    (htarget : target ≤ content.length) (hrounds : target - j ≤ rounds) (hfuel : data.length + content.length < fuel) :
    ∃ strm input curOffset i', h.skip b fuel target rounds =
        some { h with strm, input, curOffset, curDecOffset := target } ∧
      Buffered data reached { h with strm, input, curOffset, curDecOffset := target } i' target := by
  induction rounds generalizing h i j with
  | zero =>
    obtain rfl : j = target := by omega
    subst hcur
    exact ⟨h.strm, h.input, h.curOffset, i, skip_self b fuel 0 le_rfl, hbuf⟩
  | succ rounds ih =>
    by_cases hlt : j < target
    · obtain ⟨readSize, hsize⟩ : ∃ readSize, readSize = min (target - j) 0x2000 := ⟨_, rfl⟩
      have hcount : ((content.drop j).take readSize).length = readSize := by
        rw [List.length_take, List.length_drop]
        omega
      obtain ⟨strm, input, curOffset, i', hinternal, hbuf'⟩ :=
        @Buffered.internalRead σ b content data reached h fuel i j hexpands readSize hbuf hread (by omega)
      rw [hcount] at hbuf'
      obtain ⟨strm', input', curOffset', i'', hskip, hend⟩ :=
        @ih { h with strm, input, curOffset, curDecOffset := j + readSize } i' (j + readSize)
          ⟨hbuf'.reached, hbuf'.input, hbuf'.offset, hbuf'.le⟩ hread rfl (by omega) (by omega)
      refine ⟨strm', input', curOffset', i'', ?_, hend⟩
      rw [FileHandle.skip, hcur, if_pos hlt, ← hsize]
      simp only [hinternal, Option.bind_eq_bind, Option.bind_some, hcount, Nat.sub_self, Nat.sub_zero, hcur]
      exact hskip
    · obtain rfl : j = target := by omega
      subst hcur
      exact ⟨h.strm, h.input, h.curOffset, i, skip_self b fuel _ le_rfl, hbuf⟩

/-- After `rewind` the position is not behind the target, and it is the old one or the beginning. -/
theorem Buffered.rewind (hexpands : b.zlib.Expands data content reached) (hbuf : Buffered data reached h i j)
    (hcur : h.curDecOffset = j) (target : Nat) :
    ∃ i' j', Buffered data reached (h.rewind b target) i' j' ∧ (h.rewind b target).curDecOffset = j' ∧ j' ≤ target ∧
      (j' = j ∨ j' = 0 ∧ target < j) := by
  rw [FileHandle.rewind]
  split
  next hlt => exact ⟨0, 0, ⟨hexpands.init, rfl, rfl, Nat.zero_le _⟩, rfl, Nat.zero_le _, .inr ⟨rfl, hcur ▸ hlt⟩⟩
  next hle => exact ⟨i, j, hbuf, hcur, by omega, .inl rfl⟩

theorem rewind_entry (b : Backing σ) (target : Nat) (h : FileHandle σ) : (h.rewind b target).entry = h.entry := by
  rw [FileHandle.rewind]
  split <;> rfl

theorem rewind_compressed (b : Backing σ) (target : Nat) (h : FileHandle σ) :
    (h.rewind b target).compressed = h.compressed := by
  rw [FileHandle.rewind]
  split <;> rfl

end FileHandle

open FileHandle

/-- The handle stands for the byte array. -/
structure Represents (b : Backing σ) (entry : Entry) (content : List Byte) (reached : σ → Nat → Nat → Prop)
    (h : FileHandle σ) (v : View) : Prop where
  entry_eq : h.entry = entry
  content_eq : v.content = content
  pos_le : v.pos ≤ content.length
  compressed : h.compressed = true ↔ entry.size ≠ 0
  stored : h.compressed = false → h.curOffset = v.pos
  deflated : h.compressed = true → h.curDecOffset = v.pos ∧ ∃ i, Buffered (entry.data b) reached h i v.pos

theorem toSize_of_mem {x : Int} (hle : 0 ≤ x) (hlt : x < 2 ^ 64) : toSize x = x.toNat := by
  rw [toSize, Int.emod_eq_of_lt hle hlt]

/-- A valid seek goes where it goes in the byte array. -/
theorem seekTarget_eq {offset : Int} {seekType : SeekType} (hvalid : v.Valid (.seek offset seekType))
    (hsmall : v.content.length < 2 ^ 32) :
    seekTarget v.pos v.content.length offset seekType = (v.target offset seekType).toNat := by
  obtain ⟨hle, hlt⟩ := hvalid
  have hsize := toSize_of_mem hle (by omega)
  cases seekType with
  | seekSet => exact hsize
  | seekEnd => exact hsize
  | seekCur =>
    change min (toSize (v.target offset .seekCur)) v.content.length = _
    rw [hsize]
    omega

theorem Represents.readable (hrep : Represents b entry content reached h v) (hholds : entry.Holds b content reached)
    (hkind : h.compressed = true) (hoffset : h.entry.offset < 2 ^ 22) : Readable b h.entry (entry.data b) := by
  obtain ⟨rfl, -, -, hcompressed, -, -⟩ := hrep
  exact ⟨rfl, (hholds.deflated (hcompressed.mp hkind)).1, hoffset⟩

theorem length_take_drop_le {size pos : Nat} :
    pos + ((content.drop pos).take size).length ≤ max pos content.length := by
  rw [List.length_take, List.length_drop]
  omega

theorem Represents.read_stored {size : Nat} (hrep : Represents b entry content reached h v)
    (hholds : entry.Holds b content reached) (hkind : h.compressed = false) (hmore : h.curOffset < h.entry.virtFlags)
    (hoffset : h.entry.offset < 2 ^ 22) :
    ∃ h', h.call b fuel (.read size) = some (h', (v.call (.read size)).2) ∧
      Represents b entry content reached h' (v.call (.read size)).1 := by
  obtain ⟨rfl, rfl, hpos, hcompressed, hstored, -⟩ := hrep
  have hcur := hstored hkind
  have hsize : h.entry.size = 0 := by
    by_contra hne
    rw [hcompressed.mpr hne] at hkind
    cases hkind
  have hbytes : h.readBulk b (min (h.entry.virtFlags - h.curOffset) size) =
    some ((v.content.drop v.pos).take size) := by
    rw [readBulk_of_offset hoffset, ← hholds.stored hsize, hcur, List.drop_take, List.take_take, List.drop_drop,
      Nat.min_comm]
  refine ⟨{ h with curOffset := h.curOffset + ((v.content.drop v.pos).take size).length }, ?_,
    ⟨rfl, rfl, ?_, hcompressed, fun _ => ?_, fun h' => ?_⟩⟩
  · rw [FileHandle.call, FileHandle.read, if_neg (Nat.not_le.mpr hmore), if_neg (by simp [hkind]), hbytes]
    rfl
  · exact length_take_drop_le.trans (max_le hpos le_rfl)
  · exact congrArg (· + _) hcur
  · rw [hkind] at h'
    cases h'

theorem Represents.read_compressed {size : Nat} (hrep : Represents b entry content reached h v)
    (hholds : entry.Holds b content reached) (hfuel : entry.size + entry.virtFlags < fuel)
    (hkind : h.compressed = true)
    (hmore : h.curOffset < h.entry.virtFlags) (hoffset : h.entry.offset < 2 ^ 22) (hsmall : size < 2 ^ 32) :
    ∃ h', h.call b fuel (.read size) = some (h', (v.call (.read size)).2) ∧
      Represents b entry content reached h' (v.call (.read size)).1 := by
  have hread := hrep.readable hholds hkind hoffset
  obtain ⟨rfl, rfl, hpos, hcompressed, hstored, hdeflated⟩ := hrep
  obtain ⟨hcur, i, hbuf⟩ := hdeflated hkind
  have hexpands := (hholds.deflated (hcompressed.mp hkind)).2
  have hcount := hread.length
  have hlength := hholds.length
  obtain ⟨strm, input, curOffset, i', hinternal, hbuf'⟩ :=
    @Buffered.internalRead σ b v.content _ reached h fuel i v.pos hexpands size hbuf hread (by omega)
  have htake : ((v.content.drop v.pos).take size).length ≤ size := by
    rw [List.length_take]
    exact Nat.min_le_left _ _
  have hdid : size - (size - ((v.content.drop v.pos).take size).length) = ((v.content.drop v.pos).take size).length :=
    Nat.sub_sub_self htake
  refine ⟨{ h with
    strm, input, curOffset
    curDecOffset := h.curDecOffset + ((v.content.drop v.pos).take size).length },
    ?_, ⟨rfl, rfl, ?_, hcompressed, fun h' => ?_, fun _ => ⟨?_, i', ?_⟩⟩⟩
  · rw [FileHandle.call, FileHandle.read, if_neg (Nat.not_le.mpr hmore), if_pos hkind, Nat.mod_eq_of_lt hsmall]
    simp only [hinternal, Option.bind_eq_bind, Option.bind_some, Option.map_some, hdid]
    rfl
  · exact length_take_drop_le.trans (max_le hpos le_rfl)
  · rw [hkind] at h'
    cases h'
  · exact congrArg (· + _) hcur
  · exact ⟨hbuf'.reached, hbuf'.input, hbuf'.offset, hbuf'.le⟩

/-- `Read` of what is allowed is the read of the byte array. -/
theorem Represents.read {size : Nat} (hrep : Represents b entry content reached h v)
    (hholds : entry.Holds b content reached) (hfuel : entry.size + entry.virtFlags < fuel)
    (hok : Allowed h v (.read size)) :
    ∃ h', h.call b fuel (.read size) = some (h', (v.call (.read size)).2) ∧
      Represents b entry content reached h' (v.call (.read size)).1 := by
  by_cases hmore : h.curOffset < h.entry.virtFlags
  · rw [Allowed, if_pos hmore] at hok
    rcases hok with ⟨hkind, rfl⟩ | ⟨hoffset, hsmall⟩
    · refine ⟨h, ?_, hrep⟩
      rw [FileHandle.call, FileHandle.read, if_neg (Nat.not_le.mpr hmore), if_pos hkind]
      simp [internalRead_zero, View.call]
    · cases hkind : h.compressed with
      | false => exact hrep.read_stored hholds hkind hmore hoffset
      | true => exact hrep.read_compressed hholds hfuel hkind hmore hoffset (hsmall hkind)
  · rw [Allowed, if_neg hmore] at hok
    have hnil : (v.content.drop v.pos).take size = [] := by
      rcases hok with hpos | rfl
      · rw [hpos, List.drop_length, List.take_nil]
      · rw [List.take_zero]
    refine ⟨h, ?_, ?_⟩
    · rw [FileHandle.call, FileHandle.read, if_pos (Nat.not_lt.mp hmore), View.call, hnil]
      rfl
    · rw [View.call, hnil]
      exact hrep

/-- `Seek` within the content is the seek of the byte array. -/
theorem Represents.seek {offset : Int} {seekType : SeekType} (hrep : Represents b entry content reached h v)
    (hholds : entry.Holds b content reached) (hfuel : entry.size + entry.virtFlags < fuel)
    (hvalid : v.Valid (.seek offset seekType)) (hok : Allowed h v (.seek offset seekType)) :
    ∃ h', h.call b fuel (.seek offset seekType) = some (h', (v.call (.seek offset seekType)).2) ∧
      Represents b entry content reached h' (v.call (.seek offset seekType)).1 := by
  have hreadable := hrep.readable hholds
  obtain ⟨rfl, rfl, hpos, hcompressed, hstored, hdeflated⟩ := hrep
  have hlength := hholds.length
  have htarget := seekTarget_eq hvalid (hlength ▸ hholds.small)
  have hbound : (v.target offset seekType).toNat ≤ v.content.length := by
    obtain ⟨-, hle⟩ := hvalid
    omega
  cases hkind : h.compressed with
  | false =>
    refine ⟨{ h with curOffset := (v.target offset seekType).toNat }, ?_,
      ⟨rfl, rfl, hbound, hcompressed, fun _ => rfl, fun h' => ?_⟩⟩
    · rw [FileHandle.call, FileHandle.seek, if_neg (by simp [hkind]), hstored hkind, ← hlength, htarget]
      rfl
    · rw [hkind] at h'
      cases h'
  | true =>
    obtain ⟨hcur, i, hbuf⟩ := hdeflated hkind
    obtain ⟨hcount, hexpands⟩ := hholds.deflated (hcompressed.mp hkind)
    have hgoes : ∃ target : Nat, (target : Int) = v.target offset seekType ∧ target ≤ v.content.length :=
      ⟨_, Int.toNat_of_nonneg hvalid.1, hbound⟩
    obtain ⟨target, htarget', hle⟩ := hgoes
    rw [← htarget', Int.toNat_natCast] at htarget
    obtain ⟨i', j, hbuf', hcur', hj, hwhere⟩ := hbuf.rewind hexpands hcur target
    have hentry := rewind_entry b target h
    have hkind' := (rewind_compressed b target h).trans hkind
    have hseek : h.call b fuel (.seek offset seekType) =
        ((h.rewind b target).skip b fuel target fuel).map fun h => (h, .seek target) := by
      rw [FileHandle.call, FileHandle.seek, if_pos hkind, hcur, ← hlength, htarget, Option.map_map]
      rfl
    generalize h.rewind b target = h₁ at hbuf' hcur' hentry hkind' hseek
    have hskip : ∃ strm input curOffset i'', h₁.skip b fuel target fuel =
        some { h₁ with strm, input, curOffset, curDecOffset := target } ∧
          Buffered (h.entry.data b) reached { h₁ with strm, input, curOffset, curDecOffset := target } i'' target := by
      by_cases hstay : j = target
      · subst hstay
        subst hcur'
        exact ⟨_, _, _, i', skip_self b fuel fuel le_rfl, hbuf'⟩
      · have hoffset : h.entry.offset < 2 ^ 22 := by
          rcases hok hkind with hzero | hsame | hoffset
          · omega
          · omega
          · exact hoffset
        exact hbuf'.skip hexpands (hentry ▸ hreadable hkind hoffset) hcur' hj hle (by omega) (by omega)
    obtain ⟨strm, input, curOffset, i'', hskip, hend⟩ := hskip
    refine ⟨{ h₁ with strm, input, curOffset, curDecOffset := target }, ?_,
      ⟨hentry, rfl, hbound, ⟨fun _ => hcompressed.mp hkind, fun _ => hkind'⟩, fun h' => ?_, fun _ => ⟨?_, i'', ?_⟩⟩⟩
    · rw [hseek, hskip, View.call, ← htarget', Int.toNat_natCast]
      rfl
    · rw [hkind'] at h'
      cases h'
    · rw [View.call, ← htarget', Int.toNat_natCast]
    · rw [View.call, ← htarget', Int.toNat_natCast]
      exact hend

theorem represents_ofEntry (hholds : entry.Holds b content reached) :
    Represents b entry content reached (ofEntry b entry) ⟨content, 0⟩ := by
  refine ⟨rfl, rfl, Nat.zero_le _, decide_eq_true_iff, fun _ => rfl, fun h => ⟨rfl, 0, ?_, rfl, rfl, Nat.zero_le _⟩⟩
  exact (hholds.deflated (of_decide_eq_true h)).2.init

/-- Every allowed call ends, and leaves a handle that stands for the byte array after the call. -/
theorem Represents.call {call : Call} (hrep : Represents b entry content reached h v)
    (hholds : entry.Holds b content reached) (hfuel : entry.size + entry.virtFlags < fuel) (hvalid : v.Valid call)
    (hok : Allowed h v call) :
    ∃ h', h.call b fuel call = some (h', (v.call call).2) ∧ Represents b entry content reached h' (v.call call).1 := by
  cases call with
  | read size => exact hrep.read hholds hfuel hok
  | seek offset seekType => exact hrep.seek hholds hfuel hvalid hok

/-- A handle is a byte array in every state that allowed calls reach. `hholds` says what the archive holds for the
entry, and `hfuel` that the inflate loop is given enough rounds. -/
theorem exact_of_run (hholds : entry.Holds b content reached) (hfuel : entry.size + entry.virtFlags < fuel)
    {calls : List Call} {s : FileHandle σ × View}
    (hrun : Run (step b fuel) (fun s call => s.2.Valid call ∧ Allowed s.1 s.2 call)
    (ofEntry b entry, ⟨content, 0⟩) calls s) :
    Exact b fuel Allowed s := by
  have hrep : Represents b entry content reached s.1 s.2 := by
    refine hrun.invariant (fun s => Represents b entry content reached s.1 s.2) (represents_ofEntry hholds) ?_
    rintro ⟨h, v⟩ call t hrep ⟨hvalid, hok⟩ htake
    obtain ⟨h', hcall, hrep'⟩ := hrep.call hholds hfuel hvalid hok
    rw [step, hcall] at htake
    obtain rfl := Option.some.inj htake
    exact hrep'
  intro call hvalid hok
  obtain ⟨h', hcall, -⟩ := hrep.call hholds hfuel hvalid hok
  exact ⟨h', hcall⟩

/-- What zlib does with a stored block: it takes the header of five bytes, and copies the others. -/
def storedBlock (length : Nat) : Zlib (Nat × Nat) where
  init := (0, 0)
  inflate := fun (i, j) input room =>
    let head := min (5 - i) input.length
    let body := min (min (input.length - head) room) (length - j)
    { strm := (i + head + body, j + body), consumed := head + body, output := (input.drop head).take body
      code := if 5 ≤ i + head ∧ j + body = length then zStreamEnd else if head + body = 0 then -5 else zOk }

theorem storedBlock_expands {header : List Byte} (hheader : header.length = 5) (content : List Byte) :
    (storedBlock content.length).Expands (header ++ content) content
      (fun s i j => s = (i, j) ∧ j ≤ content.length ∧ (i < 5 ∧ j = 0 ∨ i = 5 + j)) := by
  refine ⟨⟨rfl, Nat.zero_le _, .inl ⟨by decide, rfl⟩⟩, ?_⟩
  rintro s i j input room ⟨rfl, hj, hwhere⟩ hinput hsome hroom
  have hlength : (header ++ content).length = 5 + content.length := by rw [List.length_append, hheader]
  have hle : input.length ≤ 5 + content.length - i := by
    have hcount := congrArg List.length hinput
    rw [List.length_take, List.length_drop, hlength] at hcount
    omega
  obtain ⟨head, hhead⟩ : ∃ head, head = min (5 - i) input.length := ⟨_, rfl⟩
  obtain ⟨body, hbody⟩ : ∃ body, body = min (min (input.length - head) room) (content.length - j) := ⟨_, rfl⟩
  have houtput : (input.drop head).take body = (content.drop j).take body := by
    rcases Nat.eq_zero_or_pos body with hzero | hpos
    · rw [hzero, List.take_zero, List.take_zero]
    · rw [hinput, List.drop_take, List.drop_drop, List.take_take, Nat.min_eq_left (by omega),
        show i + head = header.length + j by omega, ← List.drop_drop, List.drop_left]
  have hcount : ((input.drop head).take body).length = body := by
    rw [List.length_take, List.length_drop]
    omega
  have hr : (storedBlock content.length).inflate (i, j) input room =
      { strm := (i + head + body, j + body), consumed := head + body, output := (input.drop head).take body
        code := if 5 ≤ i + head ∧ j + body = content.length then zStreamEnd else if head + body = 0 then -5
          else zOk } := by
    rw [hbody, hhead]
    rfl
  rw [hr]
  refine ⟨?_, ?_, ?_, ?_, ?_⟩
  · rw [hcount]
    dsimp only
    exact ⟨by rw [Nat.add_assoc], by omega, by omega⟩
  · dsimp only
    omega
  · rw [hcount]
    exact houtput
  · rw [hcount]
    omega
  · rw [hcount, hlength]
    dsimp only
    by_cases hend : 5 ≤ i + head ∧ j + body = content.length
    · exact .inl ⟨if_pos hend, hend.2⟩
    · have hinput' : 0 < input.length := by
        rcases hsome with hsome | hsome
        · exact List.length_pos_iff.mpr hsome
        · rw [hlength] at hsome
          omega
      refine .inr ⟨?_, by omega, by omega⟩
      rw [if_neg hend, if_neg (by omega)]

/-- An archive with three bytes of content, in a block of eight. -/
def block : Backing (Nat × Nat) :=
    { zlib := storedBlock 3, bytes := List.replicate 512 0 ++ [1, 3, 0, 252, 255, 1, 2, 3] }

def blockEntry : Entry := { nameOffset := 0, size := 8, offset := 1, virtFlags := 3, physFlags := 0 }

theorem block_holds : blockEntry.Holds block [1, 2, 3]
    (fun s i j => s = (i, j) ∧ j ≤ 3 ∧ (i < 5 ∧ j = 0 ∨ i = 5 + j)) := by
  have hdata : blockEntry.data block = [1, 3, 0, 252, 255] ++ [1, 2, 3] := by
    rw [Entry.data, block, show blockEntry.offset * 512 = (List.replicate 512 (0 : Byte)).length
      from (List.length_replicate ..).symm, List.drop_left]
    rfl
  refine ⟨rfl, by decide, nofun, fun _ => ⟨?_, ?_⟩⟩
  · rw [hdata]
    rfl
  · rw [hdata]
    exact storedBlock_expands rfl [1, 2, 3]

/-- A handle of the entry. -/
def blockHandle (curOffset curDecOffset : Nat) (strm : Nat × Nat) (input : List Byte) : FileHandle (Nat × Nat) :=
  { compressed := true, entry := blockEntry, curOffset, curDecOffset, strm, input }

set_option maxRecDepth 4000 in
/-- A small file is read whole, and again from its beginning. -/
theorem exact_whole : ∃ s, Run (step block 12) (fun s call => s.2.Valid call ∧ Allowed s.1 s.2 call)
    (ofEntry block blockEntry, ⟨[1, 2, 3], 0⟩) [.read 3, .read 1, .seek (-3) .seekCur, .read 2] s ∧
      Exact block 12 Allowed s := by
  have hwhole : step block 12 (blockHandle 0 0 (0, 0) [], ⟨[1, 2, 3], 0⟩) (.read 3) =
      some (blockHandle 8 3 (8, 3) [], ⟨[1, 2, 3], 3⟩) := rfl
  have hend : step block 12 (blockHandle 8 3 (8, 3) [], ⟨[1, 2, 3], 3⟩) (.read 1) =
      some (blockHandle 8 3 (8, 3) [], ⟨[1, 2, 3], 3⟩) := rfl
  have hback : step block 12 (blockHandle 8 3 (8, 3) [], ⟨[1, 2, 3], 3⟩) (.seek (-3) .seekCur) =
      some (blockHandle 0 0 (0, 0) [], ⟨[1, 2, 3], 0⟩) := rfl
  have hpart : step block 12 (blockHandle 0 0 (0, 0) [], ⟨[1, 2, 3], 0⟩) (.read 2) =
      some (blockHandle 8 2 (7, 2) [3], ⟨[1, 2, 3], 2⟩) := rfl
  have hread : ∀ size < 2 ^ 32, Allowed (blockHandle 0 0 (0, 0) []) ⟨[1, 2, 3], 0⟩ (.read size) :=
    fun size hsize => .inr ⟨by decide, fun _ => hsize⟩
  have hrun : Run (step block 12) (fun s call => s.2.Valid call ∧ Allowed s.1 s.2 call)
      (ofEntry block blockEntry, ⟨[1, 2, 3], 0⟩) [.read 3, .read 1, .seek (-3) .seekCur, .read 2] _ :=
    .cons ⟨trivial, hread 3 (by decide)⟩ hwhole (.cons ⟨trivial, .inl rfl⟩ hend
      (.cons ⟨⟨by decide, by decide⟩, fun _ => .inl rfl⟩ hback (.cons ⟨trivial, hread 2 (by decide)⟩ hpart (.nil _))))
  exact ⟨_, hrun, exact_of_run block_holds (by decide) hrun⟩

set_option maxRecDepth 4000 in
/-- The second read takes the offset in the block for the one in the content, and finds no more of it. -/
theorem not_exact_block :
    ¬ ∀ (σ : Type) (b : Backing σ) (entry : Entry) (content : List Byte) (reached : σ → Nat → Nat → Prop) (fuel : Nat),
      entry.Holds b content reached → entry.size + entry.virtFlags < fuel → ∀ calls s, Run (step b fuel)
        (fun s call => s.2.Valid call) (ofEntry b entry, ⟨content, 0⟩) calls s →
          Exact b fuel (fun _ _ _ => True) s := by
  intro hall
  have hfirst : step block 12 (blockHandle 0 0 (0, 0) [], ⟨[1, 2, 3], 0⟩) (.read 1) =
      some (blockHandle 8 1 (6, 1) [2, 3], ⟨[1, 2, 3], 1⟩) := rfl
  have hsecond : (blockHandle 8 1 (6, 1) [2, 3]).call block 12 (.read 1) =
      some (blockHandle 8 1 (6, 1) [2, 3], .read 0 []) := rfl
  obtain ⟨h, hcall⟩ := hall _ _ _ _ _ 12 block_holds (by decide) [.read 1] _
    (.cons trivial hfirst (.nil _)) (.read 1) trivial trivial
  have hresult := congrArg (Option.map Prod.snd) (hsecond.symm.trans hcall)
  cases hresult

end vfs.RagePackfile7
