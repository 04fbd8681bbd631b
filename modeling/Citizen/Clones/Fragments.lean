import Citizen.Lib.Adjacent

open Adjacent

namespace fx

/-- The bit fields of the union `FrameIndex`. -/
structure FrameIndex where
  lastFragment : Bool
  currentFragment : Nat
  frameIndex : Nat
  deriving Repr, DecidableEq

namespace FrameIndex

def ofFull (full : BitVec 64) : FrameIndex where
  lastFragment := full.getLsbD 0
  currentFragment := (full.extractLsb' 1 7).toNat
  frameIndex := (full.extractLsb' 8 56).toNat

/-- The word the fields are stored in, each cut to its width. -/
def full (i : FrameIndex) : BitVec 64 :=
  BitVec.ofNat 56 i.frameIndex ++ (BitVec.ofNat 7 i.currentFragment ++ BitVec.ofBool i.lastFragment : BitVec 8)

theorem ofFull_full (i : FrameIndex) :
    ofFull i.full = ⟨i.lastFragment, i.currentFragment % 128, i.frameIndex % 2 ^ 56⟩ := by
  have hfields : ∀ (f : BitVec 56) (c : BitVec 7) (b : Bool),
      ofFull (f ++ (c ++ BitVec.ofBool b : BitVec 8)) = ⟨b, c.toNat, f.toNat⟩ := by
    intro f c b
    rw [ofFull, FrameIndex.mk.injEq]
    refine ⟨?_, congrArg BitVec.toNat (BitVec.eq_of_getLsbD_eq fun j hj => ?_),
      congrArg BitVec.toNat (BitVec.eq_of_getLsbD_eq fun j hj => ?_)⟩
    · rw [BitVec.getLsbD_append, if_pos (by decide), BitVec.getLsbD_append, if_pos (by decide)]
      simp
    · rw [BitVec.getLsbD_extractLsb', decide_eq_true hj, Bool.true_and, BitVec.getLsbD_append, if_pos (by omega),
        BitVec.getLsbD_append, if_neg (by omega), Nat.add_sub_cancel_left]
    · rw [BitVec.getLsbD_extractLsb', decide_eq_true hj, Bool.true_and, BitVec.getLsbD_append, if_neg (by omega),
        Nat.add_sub_cancel_left]
  rw [full, hfields]
  simp

end FrameIndex

/-- The check for missing frames and fragments in `HandleCloneSync`: the new
`m_lastReceivedFrame` and the missing range, first and last. -/
def handleCloneSync (m_lastReceivedFrame : FrameIndex) (frameIndex : BitVec 64) : FrameIndex × Option (Nat × Nat) :=
  let newIndex := FrameIndex.ofFull frameIndex
  if m_lastReceivedFrame.frameIndex = 0 then (newIndex, none)
  else if m_lastReceivedFrame.frameIndex = newIndex.frameIndex then
    -- "server is on crack": returns before anything else
    if m_lastReceivedFrame.lastFragment ∧ newIndex.lastFragment then (m_lastReceivedFrame, none)
    else if (m_lastReceivedFrame.currentFragment : Int) ≠ newIndex.currentFragment - 1 then
      (newIndex, some (newIndex.frameIndex, newIndex.frameIndex))
    else (newIndex, none)
  else if m_lastReceivedFrame.frameIndex ≠ (newIndex.frameIndex + (2 ^ 64 - 1)) % 2 ^ 64 then
    (newIndex, some (m_lastReceivedFrame.frameIndex + 1, (newIndex.frameIndex + (2 ^ 64 - 1)) % 2 ^ 64))
  else if m_lastReceivedFrame.lastFragment ∧ newIndex.currentFragment ≠ 1 then
    (newIndex, some (m_lastReceivedFrame.frameIndex + 1, newIndex.frameIndex))
  else if ¬ m_lastReceivedFrame.lastFragment then
    (newIndex, some (m_lastReceivedFrame.frameIndex, m_lastReceivedFrame.frameIndex))
  else (newIndex, none)

/-- The missing ranges that a sequence of packets leads to. -/
def missingFrames : FrameIndex → List (BitVec 64) → List (Nat × Nat)
  | _, [] => []
  | m_lastReceivedFrame, frameIndex :: rest =>
    let (m_lastReceivedFrame, missing) := handleCloneSync m_lastReceivedFrame frameIndex
    missing.toList ++ missingFrames m_lastReceivedFrame rest

/-- Fragment `number` of the `count` that a frame is split into. -/
structure Fragment where
  frame : Nat
  number : Nat
  count : Nat
  deriving Repr, DecidableEq

namespace Fragment

def isLast (x : Fragment) : Bool := x.number = x.count

/-- The `newFrame` that `FlushBuffer` sends a fragment with. -/
def newFrame (x : Fragment) : BitVec 64 := FrameIndex.full ⟨x.isLast, x.number, x.frame⟩

/-- The order fragments are sent in. -/
def Before (x y : Fragment) : Prop := x.frame < y.frame ∨ x.frame = y.frame ∧ x.number < y.number

end Fragment

/-- The fragments of one frame. -/
def frameFragments (frame count : Nat) : List Fragment := (List.range count).map fun k => ⟨frame, k + 1, count⟩

/-- The fragments of frames with consecutive indices from `first`, split into `counts` fragments. -/
def stream (first : Nat) : List Nat → List Fragment
  | [] => []
  | count :: counts => frameFragments first count ++ stream (first + 1) counts

theorem mem_stream {first : Nat} {counts : List Nat} {x : Fragment} :
    x ∈ stream first counts ↔
      first ≤ x.frame ∧ counts[x.frame - first]? = some x.count ∧ 1 ≤ x.number ∧ x.number ≤ x.count := by
  induction counts generalizing first with
  | nil => simp [stream]
  | cons count counts ih =>
    rw [stream, List.mem_append, ih]
    have hframe : x ∈ frameFragments first count ↔ x.frame = first ∧ x.count = count ∧ 1 ≤ x.number ∧
      x.number ≤ count := by
      simp only [frameFragments, List.mem_map, List.mem_range]
      constructor
      · rintro ⟨k, hk, rfl⟩
        exact ⟨rfl, rfl, Nat.succ_pos k, hk⟩
      · rintro ⟨rfl, rfl, hlo, hhi⟩
        exact ⟨x.number - 1, by omega, by rw [Nat.sub_add_cancel hlo]⟩
    rw [hframe]
    by_cases hfirst : x.frame = first
    · subst hfirst
      rw [Nat.sub_self, List.getElem?_cons_zero, Option.some.injEq]
      constructor
      · rintro (⟨-, hcount, h⟩ | h)
        · exact ⟨Nat.le_refl _, hcount.symm, by rwa [hcount]⟩
        · omega
      · rintro ⟨-, hcount, h⟩
        exact .inl ⟨rfl, hcount.symm, by rwa [hcount]⟩
    · constructor
      · rintro (h | ⟨hle, hcount, h⟩)
        · exact absurd h.1 hfirst
        · refine ⟨by omega, ?_, h⟩
          rwa [show x.frame - first = x.frame - (first + 1) + 1 by omega, List.getElem?_cons_succ]
      · rintro ⟨hle, hcount, h⟩
        refine .inr ⟨by omega, ?_, h⟩
        rwa [show x.frame - first = x.frame - (first + 1) + 1 by omega, List.getElem?_cons_succ] at hcount

theorem pairwise_stream (first : Nat) (counts : List Nat) : (stream first counts).Pairwise Fragment.Before := by
  induction counts generalizing first with
  | nil => exact .nil
  | cons count counts ih =>
    rw [stream, List.pairwise_append]
    refine ⟨?_, ih _, fun x hx y hy => .inl ?_⟩
    · rw [frameFragments, List.pairwise_map]
      exact List.pairwise_lt_range.imp fun hlt => .inr ⟨rfl, Nat.succ_lt_succ hlt⟩
    · have hle := (mem_stream.mp hy).1
      simp only [frameFragments, List.mem_map] at hx
      obtain ⟨k, _, rfl⟩ := hx
      exact hle

/-- A subsequence of a stream as a client receives it; frame indices start at 1 and fit
their field. -/
structure Delivered (first : Nat) (counts : List Nat) (delivered : List Fragment) : Prop where
  sublist : delivered.Sublist (stream first counts)
  first_pos : 1 ≤ first
  fits : first + counts.length ≤ 2 ^ 56

/-- Two fragments received one after the other. -/
structure InOrder (p q : Fragment) : Prop where
  before : p.Before q
  p_pos : 1 ≤ p.frame
  p_le : p.number ≤ p.count
  q_pos : 1 ≤ q.number
  q_le : q.number ≤ q.count
  q_lt : q.frame < 2 ^ 56
  same_count : p.frame = q.frame → p.count = q.count

/-- What the client remembers of a fragment. -/
def Fragment.index (x : Fragment) : FrameIndex := ⟨x.isLast, x.number % 128, x.frame⟩

theorem Fragment.ofFull_newFrame {x : Fragment} (h : x.frame < 2 ^ 56) : FrameIndex.ofFull x.newFrame = x.index := by
  rw [newFrame, FrameIndex.ofFull_full, index, Nat.mod_eq_of_lt h]

/-- The losses around a pair of fragments that the client takes for one in frame `f`: a
whole frame between them, one inside the frame, its tail before the next frame, or its head
after the end of the previous one. -/
inductive Shows (f : Nat) (p q : Fragment) : Prop where
  | between (h : p.frame < f) (h' : f < q.frame)
  | inside (h : p.frame = f) (h' : q.frame = f) (hgap : p.number % 128 + 1 ≠ q.number % 128)
  | tail (h : p.frame = f) (h' : q.frame = f + 1) (hlast : p.isLast = false)
  | head (h : p.frame + 1 = f) (h' : q.frame = f) (hlast : p.isLast = true) (hfirst : q.number % 128 ≠ 1)

/-- The range that the check on two fragments in order reports. -/
theorem handleCloneSync_next {p q : Fragment} (h : InOrder p q) :
    handleCloneSync p.index q.newFrame = (q.index,
      if p.frame = q.frame then if p.number % 128 + 1 = q.number % 128 then none else some (q.frame, q.frame)
      else if p.frame + 1 ≠ q.frame then some (p.frame + 1, q.frame - 1)
      else if p.isLast = true then if q.number % 128 = 1 then none else some (q.frame, q.frame)
      else some (p.frame, p.frame)) := by
  have hbefore := h.before
  have hpos := h.p_pos
  have hlt := h.q_lt
  have hprevious : (q.frame + (2 ^ 64 - 1)) % 2 ^ 64 = q.frame - 1 := by
    have hqpos : 1 ≤ q.frame := by
      rcases hbefore with hframe | hframe <;> omega
    omega
  have hne : ¬ p.index.frameIndex = 0 := Nat.one_le_iff_ne_zero.mp hpos
  rw [handleCloneSync, Fragment.ofFull_newFrame hlt, if_neg hne]
  by_cases hsame : p.frame = q.frame
  · have hindex : p.index.frameIndex = q.index.frameIndex := hsame
    have hnotBoth : ¬ (p.index.lastFragment = true ∧ q.index.lastFragment = true) := by
      have hcount := h.same_count hsame
      have hqle := h.q_le
      simp only [Fragment.index, Fragment.isLast, decide_eq_true_eq]
      rcases hbefore with hframe | hframe <;> omega
    have hcurrent : ((p.index.currentFragment : Int) ≠ q.index.currentFragment - 1) ↔
        ¬ p.number % 128 + 1 = q.number % 128 := by
      simp only [Fragment.index]
      omega
    rw [if_pos hindex, if_neg hnotBoth, if_pos hsame]
    by_cases hgap : p.number % 128 + 1 = q.number % 128
    · rw [if_neg (fun hc => hcurrent.mp hc hgap), if_pos hgap]
    · rw [if_pos (hcurrent.mpr hgap), if_neg hgap]
      rfl
  · have hindex : ¬ p.index.frameIndex = q.index.frameIndex := hsame
    have hnextIndex : p.index.frameIndex ≠ (q.index.frameIndex + (2 ^ 64 - 1)) % 2 ^ 64 ↔ p.frame + 1 ≠ q.frame := by
      simp only [Fragment.index, hprevious]
      rcases hbefore with hframe | hframe <;> omega
    rw [if_neg hindex, if_neg hsame]
    by_cases hnext : p.frame + 1 ≠ q.frame
    · rw [if_pos (hnextIndex.mpr hnext), if_pos hnext]
      simp only [Fragment.index, hprevious]
    · rw [if_neg (mt hnextIndex.mp hnext), if_neg hnext]
      by_cases hlast : p.isLast = true
      · have hlastIndex : ¬ ¬ p.index.lastFragment = true := not_not.mpr hlast
        rw [if_pos hlast]
        by_cases hfirst : q.number % 128 = 1
        · have hfirstIndex : ¬ (p.index.lastFragment = true ∧ q.index.currentFragment ≠ 1) := fun hc => hc.2 hfirst
          rw [if_neg hfirstIndex, if_neg hlastIndex, if_pos hfirst]
        · have hfirstIndex : p.index.lastFragment = true ∧ q.index.currentFragment ≠ 1 := ⟨hlast, hfirst⟩
          rw [if_pos hfirstIndex, if_neg hfirst, ← not_ne_iff.mp hnext]
          simp only [Fragment.index, not_ne_iff.mp hnext]
      · have hlastIndex : ¬ (p.index.lastFragment = true ∧ q.index.currentFragment ≠ 1) := fun hc => hlast hc.1
        have hlastIndex' : ¬ p.index.lastFragment = true := hlast
        rw [if_neg hlastIndex, if_pos hlastIndex', if_neg hlast]
        rfl

/-- The range contains a frame exactly where the losses around the pair show it. -/
theorem shows_iff {p q : Fragment} (h : InOrder p q) {f : Nat} :
    (∃ missing ∈ (handleCloneSync p.index q.newFrame).2, missing.1 ≤ f ∧ f ≤ missing.2) ↔ Shows f p q := by
  have hbefore := h.before
  rw [handleCloneSync_next h]
  constructor
  · rintro ⟨missing, hmissing, hlo, hhi⟩
    dsimp only at hmissing
    split at hmissing
    · rename_i hsame
      split at hmissing
      · cases hmissing
      · cases hmissing
        obtain rfl := Nat.le_antisymm hhi hlo
        exact .inside hsame rfl ‹_›
    · rename_i hsame
      split at hmissing
      · cases hmissing
        dsimp only at hlo hhi
        exact .between (by omega) (by omega)
      · rename_i hnext
        split at hmissing
        · split at hmissing
          · cases hmissing
          · cases hmissing
            obtain rfl := Nat.le_antisymm hhi hlo
            exact .head (by omega) rfl ‹_› ‹_›
        · cases hmissing
          obtain rfl := Nat.le_antisymm hhi hlo
          exact .tail rfl (by omega) (by simpa using ‹¬ p.isLast = true›)
  · intro hshows
    cases hshows with
    | between hlo hhi =>
      refine ⟨(p.frame + 1, q.frame - 1), ?_, by dsimp only; omega, by dsimp only; omega⟩
      dsimp only
      rw [if_neg (by omega), if_pos (by omega)]
      rfl
    | inside hpf hqf hgap =>
      subst hqf
      refine ⟨(q.frame, q.frame), ?_, Nat.le_refl _, Nat.le_refl _⟩
      dsimp only
      rw [if_pos hpf, if_neg hgap]
      rfl
    | tail hpf hqf hlast =>
      subst hpf
      refine ⟨(p.frame, p.frame), ?_, Nat.le_refl _, Nat.le_refl _⟩
      dsimp only
      rw [if_neg (by omega), if_neg (by omega), if_neg (by simp [hlast])]
      rfl
    | head hpf hqf hlast hfirst =>
      subst hqf
      refine ⟨(q.frame, q.frame), ?_, Nat.le_refl _, Nat.le_refl _⟩
      dsimp only
      rw [if_neg (by omega), if_neg (by omega), if_pos hlast, if_neg hfirst]
      rfl

theorem Delivered.sorted {first : Nat} {counts : List Nat} {delivered : List Fragment}
    (h : Delivered first counts delivered) :
    Sorted Fragment.Before delivered where
  pairwise := (pairwise_stream first counts).sublist h.sublist
  irrefl x := by
    rintro (hlt | ⟨_, hlt⟩) <;> omega
  trans x y z := by
    rintro (hxy | ⟨hxy, hxy'⟩) (hyz | ⟨hyz, hyz'⟩)
    · exact .inl (hxy.trans hyz)
    · exact .inl (hyz ▸ hxy)
    · exact .inl (hxy ▸ hyz)
    · exact .inr ⟨hxy.trans hyz, hxy'.trans hyz'⟩

theorem Delivered.inOrder {first : Nat} {counts : List Nat} {delivered : List Fragment}
    (h : Delivered first counts delivered) {p q : Fragment} (hnext : Next delivered p q) : InOrder p q := by
  obtain ⟨hp, hq⟩ := hnext.mem
  obtain ⟨hple, hpcount, _, hpn⟩ := mem_stream.mp (h.sublist.subset hp)
  obtain ⟨hqle, hqcount, hq1, hqn⟩ := mem_stream.mp (h.sublist.subset hq)
  have hfirst := h.first_pos
  have hfits := h.fits
  refine ⟨hnext.rel h.sorted.pairwise, by omega, hpn, hq1, hqn, ?_, fun hsame => ?_⟩
  · have hlt := (List.getElem?_eq_some_iff.mp hqcount).1
    omega
  · rw [hsame, hqcount] at hpcount
    exact (Option.some.inj hpcount).symm

theorem Delivered.front {first : Nat} {counts : List Nat} {delivered l : List Fragment}
    (h : Delivered first counts delivered) (hl : l <+: delivered) : Delivered first counts l :=
  ⟨hl.sublist.trans h.sublist, h.first_pos, h.fits⟩

/-- The ranges that a new client reports for the fragments it receives. -/
def reported (delivered : List Fragment) : List (Nat × Nat) :=
  missingFrames ⟨false, 0, 0⟩ (delivered.map Fragment.newFrame)

private theorem mem_missingFrames {missing : Nat × Nat} {x : Fragment} {l : List Fragment}
    (hl : ∀ p q, Next (x :: l) p q → InOrder p q) :
    missing ∈ missingFrames x.index (l.map Fragment.newFrame) ↔
      ∃ p q, Next (x :: l) p q ∧ missing ∈ (handleCloneSync p.index q.newFrame).2 := by
  induction l generalizing x with
  | nil =>
    refine ⟨fun h => (by cases h), ?_⟩
    rintro ⟨p, q, hnext, _⟩
    exact absurd hnext not_next_singleton
  | cons y l ih =>
    have hfirst : (handleCloneSync x.index y.newFrame).1 = y.index := by
      rw [handleCloneSync_next (hl x y (next_cons_cons.mpr (.inl ⟨rfl, rfl⟩)))]
    rw [List.map_cons, missingFrames]
    dsimp only
    rw [hfirst, List.mem_append, ih (fun p q hnext => hl p q (next_cons_cons.mpr (.inr hnext))), Option.mem_toList]
    constructor
    · rintro (hmem | ⟨p, q, hnext, hmem⟩)
      · exact ⟨x, y, next_cons_cons.mpr (.inl ⟨rfl, rfl⟩), hmem⟩
      · exact ⟨p, q, next_cons_cons.mpr (.inr hnext), hmem⟩
    · rintro ⟨p, q, hnext, hmem⟩
      rcases next_cons_cons.mp hnext with ⟨rfl, rfl⟩ | hnext
      · exact .inl hmem
      · exact .inr ⟨p, q, hnext, hmem⟩

/-- A frame is reported where two fragments received one after the other show a loss. -/
theorem reported_iff {first : Nat} {counts : List Nat} {delivered : List Fragment}
    (h : Delivered first counts delivered) {f : Nat} :
      (∃ missing ∈ reported delivered, missing.1 ≤ f ∧ f ≤ missing.2) ↔ ∃ p q, Next delivered p q ∧ Shows f p q := by
  cases delivered with
  | nil =>
    constructor
    · rintro ⟨missing, hmem, _⟩
      cases hmem
    · rintro ⟨p, q, hnext, _⟩
      exact absurd hnext not_next_nil
  | cons x l =>
    have hx := (mem_stream.mp (h.sublist.subset List.mem_cons_self))
    have hlt : x.frame < 2 ^ 56 := by
      have hlt := (List.getElem?_eq_some_iff.mp hx.2.1).1
      have hfits := h.fits
      omega
    have hstart : reported (x :: l) = missingFrames x.index (l.map Fragment.newFrame) := by
      rw [reported, List.map_cons, missingFrames, handleCloneSync, if_pos rfl, Fragment.ofFull_newFrame hlt]
      rfl
    rw [hstart]
    simp only [mem_missingFrames fun p q hnext => h.inOrder hnext]
    constructor
    · rintro ⟨missing, ⟨p, q, hnext, hmem⟩, hcovers⟩
      exact ⟨p, q, hnext, (shows_iff (h.inOrder hnext)).mp ⟨missing, hmem, hcovers⟩⟩
    · rintro ⟨p, q, hnext, hshows⟩
      obtain ⟨missing, hmem, hcovers⟩ := (shows_iff (h.inOrder hnext)).mpr hshows
      exact ⟨missing, ⟨p, q, hnext, hmem⟩, hcovers⟩

section

variable (first : Nat) (counts : List Nat) (delivered : List Fragment)

/-- All fragments of the frame arrive. -/
def Arrives (f : Nat) : Prop :=
  (∃ y ∈ stream first counts, y.frame = f) ∧ ∀ y ∈ stream first counts, y.frame = f → y ∈ delivered

/-- A fragment of a neighbouring frame is lost. -/
def NeighbourLost (f : Nat) : Prop := ∃ y ∈ stream first counts, y ∉ delivered ∧ (y.frame + 1 = f ∨ y.frame = f + 1)

/-- Lost fragments are reported, and nothing else is. -/
structure LossesReported : Prop where
  /-- A frame after the first received one that lost a fragment is in a range by the time a
  fragment of a later frame has been handled. -/
  lost : ∀ (before : List Fragment) (x : Fragment), before ++ [x] <+: delivered →
    ∀ f, (∃ z ∈ delivered.head?, z.frame < f) → f < x.frame →
      (∃ y ∈ stream first counts, y.frame = f ∧ y ∉ delivered) → ∃ missing ∈ reported (before ++ [x]), missing.1 ≤ f ∧
        f ≤ missing.2
  complete : ∀ f, Arrives first counts delivered f → (∃ missing ∈ reported delivered, missing.1 ≤ f ∧ f ≤ missing.2) →
    NeighbourLost first counts delivered f

/-- The losses that the check can see: a frame that arrives in part, before a later one,
shows a loss between two of its fragments, at its tail before the next frame, or at its head
after the end of the previous one; and only a frame next to a loss is split into more
fragments than the 7-bit counter counts. -/
structure LossesSeen : Prop where
  broken : ∀ f, (∃ z ∈ delivered.head?, z.frame < f) → (∃ z ∈ delivered, z.frame = f) →
    (∃ x ∈ delivered, f < x.frame) → (∃ y ∈ stream first counts, y.frame = f ∧ y ∉ delivered) → ∃ p q,
      Next delivered p q ∧ Shows f p q
  counted : ∀ y ∈ stream first counts, 128 ≤ y.count → Arrives first counts delivered y.frame →
    NeighbourLost first counts delivered y.frame

end

section

variable {first : Nat} {counts : List Nat} {delivered : List Fragment}

theorem Shows.le {f : Nat} {p q : Fragment} (h : Shows f p q) : p.frame ≤ f := by
  cases h <;> omega

/-- A frame none of whose fragments arrive lies between two that do. -/
theorem exists_between {before : List Fragment} {x : Fragment} {f : Nat}
    (hx : before ++ [x] <+: delivered) (hfirst : ∃ z ∈ delivered.head?, z.frame < f) (hfx : f < x.frame)
    (hnone : ∀ z ∈ delivered, z.frame ≠ f) : ∃ p q, Next (before ++ [x]) p q ∧ Shows f p q := by
  obtain ⟨z, hz, hzf⟩ := hfirst
  obtain ⟨tail, htail⟩ := hx
  cases hstart : before ++ [x] with
  | nil => simp at hstart
  | cons a l =>
    obtain rfl : a = z := by
      rw [← htail, hstart] at hz
      exact Option.some.inj hz
    have hlast : x ∈ a :: l := by
      rw [← hstart]
      simp
    obtain ⟨p, q, hnext, hp, hq⟩ := exists_next (fun y => f < y.frame) (by omega) hlast hfx
    have hmem : p ∈ delivered := by
      rw [← htail, hstart]
      exact List.mem_append_left _ hnext.mem.1
    have hne := hnone p hmem
    exact ⟨p, q, hnext, .between (by omega) hq⟩

/-- Inside a frame that arrives whole the fragments come one by one. -/
theorem Delivered.arrives_next (h : Delivered first counts delivered) {f : Nat}
    (harrives : Arrives first counts delivered f) {p q : Fragment} (hnext : Next delivered p q)
    (hshows : Shows f p q) :
    p.frame = f ∧ q.frame = f ∧ q.number = p.number + 1 := by
  obtain ⟨⟨y, hy, hyf⟩, hall⟩ := harrives
  obtain ⟨hyle, hycount, hy1, hyn⟩ := mem_stream.mp hy
  have hstream : ∀ number, 1 ≤ number → number ≤ y.count → (⟨f, number, y.count⟩ : Fragment) ∈ delivered := by
    intro number hlo hhi
    refine hall _ (mem_stream.mpr ⟨hyf ▸ hyle, ?_, hlo, hhi⟩) rfl
    dsimp only
    rw [← hyf, hycount]
  have hcount : ∀ z ∈ delivered, z.frame = f → z.count = y.count := by
    intro z hz hzf
    obtain ⟨_, hzcount, _⟩ := mem_stream.mp (h.sublist.subset hz)
    rw [hzf, ← hyf, hycount] at hzcount
    exact (Option.some.inj hzcount).symm
  have hbetween : ∀ number, 1 ≤ number → number ≤ y.count → p.Before ⟨f, number, y.count⟩ →
      ¬ Fragment.Before ⟨f, number, y.count⟩ q :=
    fun number hlo hhi => hnext.between h.sorted (hstream number hlo hhi)
  have horder := h.inOrder hnext
  obtain ⟨hpmem, hqmem⟩ := hnext.mem
  cases hshows with
  | between hp hq => exact absurd (.inl hq) (hbetween y.number hy1 hyn (.inl hp))
  | inside hp hq hgap =>
    refine ⟨hp, hq, ?_⟩
    have hqc := hcount q hqmem hq
    have hqle := horder.q_le
    have hnot := hbetween (p.number + 1) (by omega) (by
      rcases horder.before with hlt | hlt <;> omega) (.inr ⟨hp, Nat.lt_succ_self _⟩)
    rcases horder.before with hlt | ⟨_, hlt⟩
    · omega
    · by_contra hne
      exact hnot (.inr ⟨hq.symm, by dsimp only; omega⟩)
  | tail hp hq hlast =>
    have hpc := hcount p hpmem hp
    have hple := horder.p_le
    have hne : p.number ≠ p.count := by
      intro heq
      rw [Fragment.isLast, heq] at hlast
      simp at hlast
    exact absurd (.inl (by dsimp only; omega))
      (hbetween (p.number + 1) (by omega) (by omega) (.inr ⟨hp, Nat.lt_succ_self _⟩))
  | head hp hq hlast hfirst =>
    have hq1 := horder.q_pos
    have hne : q.number ≠ 1 := by
      intro heq
      rw [heq] at hfirst
      exact hfirst rfl
    have hnot := hbetween 1 (Nat.le_refl _) (by omega) (.inl (by dsimp only; omega))
    exact absurd (.inr ⟨hq.symm, by dsimp only; omega⟩) hnot

/-- The losses are reported if and only if the check can see them. Only the order of the fragments is assumed: any
of them may be missing. -/
theorem lossesReported_iff (h : Delivered first counts delivered) :
    LossesReported first counts delivered ↔ LossesSeen first counts delivered := by
  constructor
  · intro hreported
    refine ⟨fun f hfirst harrived hlater hlost => ?_, fun y hy hmany harrives => ?_⟩
    · obtain ⟨x, hx, hfx⟩ := hlater
      obtain ⟨before, tail, hsplit⟩ := List.append_of_mem hx
      have hfront : before ++ [x] <+: delivered := ⟨tail, by rw [hsplit, List.append_assoc]; rfl⟩
      obtain ⟨p, q, hnext, hshows⟩ :=
        (reported_iff (h.front hfront)).mp (hreported.lost before x hfront f hfirst hfx hlost)
      exact ⟨p, q, hnext.mono hfront.isInfix, hshows⟩
    · refine hreported.complete _ harrives ((reported_iff h).mpr ?_)
      obtain ⟨hyle, hycount, _, _⟩ := mem_stream.mp hy
      have hmem : ∀ number, 1 ≤ number → number ≤ y.count → (⟨y.frame, number, y.count⟩ : Fragment) ∈ delivered :=
        fun number hlo hhi => harrives.2 _ (mem_stream.mpr ⟨hyle, hycount, hlo, hhi⟩) rfl
      refine ⟨⟨y.frame, 127, y.count⟩, ⟨y.frame, 128, y.count⟩,
        next_of_between h.sorted (hmem 127 (by omega) (by omega)) (hmem 128 (by omega) (by omega))
          (.inr ⟨rfl, by dsimp only; omega⟩) fun x hx hlo hhi => ?_, .inside rfl rfl (by simp)⟩
      rcases hlo with hlo | hlo <;> rcases hhi with hhi | hhi <;> dsimp only at hlo hhi <;> omega
  · intro hseen
    refine ⟨fun before x hx f hfirst hfx hlost => (reported_iff (h.front hx)).mpr ?_, fun f harrives hcovered => ?_⟩
    · by_cases harrived : ∃ z ∈ delivered, z.frame = f
      · have hmem : x ∈ delivered := hx.subset (by simp)
        obtain ⟨p, q, hnext, hshows⟩ := hseen.broken f hfirst harrived ⟨x, hmem, hfx⟩ hlost
        obtain ⟨tail, htail⟩ := hx
        rw [List.append_assoc, List.singleton_append] at htail
        have hle := hshows.le
        subst htail
        exact ⟨p, q, hnext.upto h.sorted (.inl (by omega)), hshows⟩
      · exact exists_between hx hfirst hfx fun z hz hzf => harrived ⟨z, hz, hzf⟩
    · obtain ⟨p, q, hnext, hshows⟩ := (reported_iff h).mp hcovered
      obtain ⟨hp, hq, hnumber⟩ := h.arrives_next harrives hnext hshows
      have horder := h.inOrder hnext
      have hple := horder.p_le
      have hqle := horder.q_le
      have hcount := horder.same_count (hp.trans hq.symm)
      refine hp ▸ hseen.counted p (h.sublist.subset hnext.mem.1) ?_ (hp ▸ harrives)
      cases hshows with
      | between hlo hhi => omega
      | inside _ _ hgap => omega
      | tail _ hq' _ => omega
      | head hp' _ _ _ => omega

end

theorem lossesReported_iff_three :
    LossesReported 1 [1, 1, 1] [⟨1, 1, 1⟩, ⟨3, 1, 1⟩] ↔ LossesSeen 1 [1, 1, 1] [⟨1, 1, 1⟩, ⟨3, 1, 1⟩] :=
  lossesReported_iff ⟨by decide, by decide, by decide⟩

/-- Frame 2 and the first fragment of frame 3 are lost: only frame 2 is ever reported. -/
theorem lost_head_unreported : Delivered 1 [1, 1, 2, 1] [⟨1, 1, 1⟩, ⟨3, 2, 2⟩, ⟨4, 1, 1⟩] ∧
    ¬ LossesReported 1 [1, 1, 2, 1] [⟨1, 1, 1⟩, ⟨3, 2, 2⟩, ⟨4, 1, 1⟩] := by
  refine ⟨⟨by decide, by decide, by decide⟩, fun h => ?_⟩
  obtain ⟨missing, hmem, hlo, hhi⟩ :=
    h.lost [⟨1, 1, 1⟩, ⟨3, 2, 2⟩] ⟨4, 1, 1⟩ (by decide) 3 ⟨_, rfl, by decide⟩ (by decide)
      ⟨⟨3, 1, 2⟩, by decide, rfl, by decide⟩
  have hreported : reported [⟨1, 1, 1⟩, ⟨3, 2, 2⟩, ⟨4, 1, 1⟩] = [(2, 2)] := by decide
  obtain rfl : missing = (2, 2) := by
    rw [List.cons_append, List.cons_append, List.nil_append, hreported] at hmem
    exact List.mem_singleton.mp hmem
  dsimp only at hhi
  omega

end fx
