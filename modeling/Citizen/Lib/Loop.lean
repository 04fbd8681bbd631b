import Mathlib.Algebra.Order.BigOperators.Group.List
import Mathlib.Data.Fintype.Basic
import Mathlib.Data.List.GetD
import Mathlib.Data.List.MinMax
import Mathlib.Data.List.Perm.Subperm
import Mathlib.Data.List.Sublists
import Mathlib.Data.List.TakeWhile
import Mathlib.Tactic.IntervalCases

namespace Loop

variable {S A : Type*} {f : S → A → S}

/-- A relation that every round keeps holds between the two ends of the loop. -/
theorem keeps (rel : S → S → Prop) (hrefl : ∀ s, rel s s) (htrans : ∀ {s t u}, rel s t → rel t u → rel s u)
    (hround : ∀ s a, rel s (f s a)) (l : List A) (s : S) : rel s (l.foldl f s) := by
  induction l generalizing s with
  | nil => exact hrefl s
  | cons a l ih => exact htrans (hround s a) (ih (f s a))

/-- What every round of a loop that may fail keeps holds when the loop ends. -/
theorem foldlM_invariant {g : S → A → Option S} {l : List A} (inv : S → Prop)
    (hround : ∀ {s a t}, a ∈ l → inv s → g s a = some t → inv t) {s t : S} (hinit : inv s)
    (h : l.foldlM g s = some t) : inv t := by
  induction l generalizing s with
  | nil =>
    cases h
    exact hinit
  | cons a l ih =>
    rw [List.foldlM_cons] at h
    obtain ⟨u, htake, hrest⟩ := Option.bind_eq_some_iff.mp h
    exact ih (fun ha => hround (List.mem_cons_of_mem a ha)) (hround List.mem_cons_self hinit htake) hrest

/-- Every round of the loop is allowed in the state it starts from. -/
def Along (f : S → A → S) (ok : S → A → Prop) : S → List A → Prop
  | _, [] => True
  | s, a :: l => ok s a ∧ Along f ok (f s a) l

instance Along.decide (f : S → A → S) (ok : S → A → Prop) [∀ s a, Decidable (ok s a)] :
    ∀ (s : S) (l : List A), Decidable (Along f ok s l)
  | _, [] => .isTrue trivial
  | s, a :: l =>
    have := Along.decide f ok (f s a) l
    inferInstanceAs (Decidable (ok s a ∧ Along f ok (f s a) l))

theorem Along.mono {ok ok' : S → A → Prop} : ∀ {l : List A} {s : S}, (∀ s, ∀ a ∈ l, ok s a → ok' s a) →
    Along f ok s l → Along f ok' s l
  | [], _, _, _ => trivial
  | a :: _, s, hmono, h =>
    ⟨hmono s a List.mem_cons_self h.1, Along.mono (fun s b hb => hmono s b (List.mem_cons_of_mem a hb)) h.2⟩

/-- An invariant of the allowed rounds holds after the loop. -/
theorem Along.invariant {ok : S → A → Prop} (inv : S → Prop) (hround : ∀ s a, inv s → ok s a → inv (f s a)) :
    ∀ (l : List A) (s : S), Along f ok s l → inv s → inv (l.foldl f s)
  | [], _, _, hinv => hinv
  | a :: l, s, hok, hinv => Along.invariant inv hround l (f s a) hok.2 (hround s a hinv hok.1)

/-- What a round brings about for its own element, and no other round undoes, holds of every element after the loop. -/
theorem all (inv : S → Prop) (done : A → S → Prop) {l : List A} (hinv : ∀ s, inv s → ∀ a ∈ l, inv (f s a))
    (hround : ∀ s, inv s → ∀ a ∈ l, done a (f s a)) (hkeep : ∀ s, inv s → ∀ a ∈ l, ∀ b, done b s → done b (f s a))
    (s : S)
    (h : inv s) : ∀ b ∈ l, done b (l.foldl f s) := by
  have hrest : ∀ (rest : List A) (s : S) (b : A), rest ⊆ l → inv s → done b s → done b (rest.foldl f s) := by
    intro rest
    induction rest with
    | nil => exact fun _ _ _ _ hdone => hdone
    | cons a rest ih =>
      intro s b hsub h hdone
      have ha := hsub List.mem_cons_self
      exact ih _ _ (List.subset_of_cons_subset hsub) (hinv s h a ha) (hkeep s h a ha b hdone)
  have hall : ∀ (rest : List A) (s : S), rest ⊆ l → inv s → ∀ b ∈ rest, done b (rest.foldl f s) := by
    intro rest
    induction rest with
    | nil => exact fun _ _ _ _ hb => nomatch hb
    | cons a rest ih =>
      intro s hsub h b hb
      have ha := hsub List.mem_cons_self
      have htail := List.subset_of_cons_subset hsub
      obtain rfl | hb := List.mem_cons.mp hb
      · exact hrest rest _ _ htail (hinv s h b ha) (hround s h b ha)
      · exact ih _ htail (hinv s h a ha) b hb
  exact hall l s (List.Subset.refl l) h

/-- What no round changes is the same after the loop. -/
theorem untouched {V : Type*} (inv : S → Prop) (look : S → V) {l : List A} (hinv : ∀ s, inv s → ∀ a ∈ l, inv (f s a))
    (hround : ∀ s, inv s → ∀ a ∈ l, look (f s a) = look s) (s : S) (h : inv s) : look (l.foldl f s) = look s := by
  induction l generalizing s with
  | nil => rfl
  | cons a l ih =>
    have hmem : ∀ b ∈ l, b ∈ a :: l := fun b hb => List.mem_cons_of_mem a hb
    rw [List.foldl_cons, ih (fun s h b hb => hinv s h b (hmem b hb)) (fun s h b hb => hround s h b (hmem b hb))
      (f s a) (hinv s h a List.mem_cons_self)]
    exact hround s h a List.mem_cons_self

/-- What one round brings about, and no other round changes, holds after the loop. -/
theorem touched_of {V : Type*} (inv : S → Prop) (look : S → V) (after : V → Prop) {l : List A} {a : A} {before : V}
    (ha : a ∈ l) (hnodup : l.Nodup) (hinv : ∀ s, inv s → ∀ b ∈ l, inv (f s b))
    (hself : ∀ s, inv s → look s = before → after (look (f s a)))
    (hother : ∀ s, inv s → ∀ b ∈ l, b ≠ a → look (f s b) = look s) (s : S) (h : inv s) (hstart : look s = before) :
    after (look (l.foldl f s)) := by
  induction l generalizing s with
  | nil => cases ha
  | cons b l ih =>
    obtain ⟨hnew, hnodup⟩ := List.nodup_cons.mp hnodup
    have hmem : ∀ b' ∈ l, b' ∈ b :: l := fun b' hb' => List.mem_cons_of_mem b hb'
    have hnext := hinv s h b List.mem_cons_self
    rw [List.foldl_cons]
    by_cases hab : a = b
    · subst hab
      rw [untouched inv look (fun s h b' hb' => hinv s h b' (hmem b' hb'))
        (fun s h b' hb' => hother s h b' (hmem b' hb') fun heq => hnew (heq ▸ hb')) _ hnext]
      exact hself s h hstart
    · exact ih ((List.mem_cons.mp ha).resolve_left hab) hnodup (fun s h b' hb' => hinv s h b' (hmem b' hb'))
        (fun s h b' hb' => hother s h b' (hmem b' hb')) _ hnext
        ((hother s h b List.mem_cons_self (Ne.symm hab)).trans hstart)

/-- What one round changes, and no other, has changed so after the loop. -/
theorem touched {V : Type*} (inv : S → Prop) (look : S → V) {l : List A} {a : A} {before after : V} (ha : a ∈ l)
    (hnodup : l.Nodup) (hinv : ∀ s, inv s → ∀ b ∈ l, inv (f s b))
    (hself : ∀ s, inv s → look s = before → look (f s a) = after)
    (hother : ∀ s, inv s → ∀ b ∈ l, b ≠ a → look (f s b) = look s) (s : S) (h : inv s) (hstart : look s = before) :
    look (l.foldl f s) = after := touched_of inv look (· = after) ha hnodup hinv hself hother s h hstart

end Loop
