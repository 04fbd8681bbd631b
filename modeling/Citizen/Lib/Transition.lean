import Mathlib.Algebra.Order.BigOperators.Group.List
import Mathlib.Data.Fintype.Basic
import Mathlib.Data.List.GetD
import Mathlib.Data.List.MinMax
import Mathlib.Data.List.Perm.Subperm
import Mathlib.Data.List.Sublists
import Mathlib.Data.List.TakeWhile
import Mathlib.Tactic.IntervalCases

namespace Transition

variable {S A : Type*}

/-- The actions lead from the first state to the last, and each is allowed by `ok` in the state it is taken in.
A step that is `none` cannot be taken. -/
inductive Run (step : S → A → Option S) (ok : S → A → Prop) : S → List A → S → Prop
  | nil (s : S) : Run step ok s [] s
  | cons {s t u : S} {a : A} {acts : List A} :
      ok s a → step s a = some t → Run step ok t acts u → Run step ok s (a :: acts) u

namespace Run

variable {step : S → A → Option S} {ok : S → A → Prop}

/-- What holds at the start and is kept by every allowed step holds at the end. -/
theorem invariant {s t : S} {acts : List A} (h : Run step ok s acts t) (inv : S → Prop) (hinit : inv s)
    (hstep : ∀ {s a t}, inv s → ok s a → step s a = some t → inv t) : inv t := by
  induction h with
  | nil => exact hinit
  | cons hok htake _ ih => exact ih (hstep hinit hok htake)

theorem snoc {s t u : S} {a : A} {acts : List A} (h : Run step ok s acts t) (hok : ok t a)
    (htake : step t a = some u) : Run step ok s (acts ++ [a]) u := by
  induction h with
  | nil => exact .cons hok htake (.nil _)
  | cons hfirst hnext _ ih => exact .cons hfirst hnext (ih hok htake)

theorem trans {s t u : S} {acts acts' : List A} (h : Run step ok s acts t) (h' : Run step ok t acts' u) :
    Run step ok s (acts ++ acts') u := by
  induction h with
  | nil => exact h'
  | cons hfirst hnext _ ih => exact .cons hfirst hnext (ih h')

theorem mono {ok' : S → A → Prop} {s t : S} {acts : List A} (h : Run step ok s acts t)
    (hok : ∀ s a, ok s a → ok' s a) : Run step ok' s acts t := by
  induction h with
  | nil => exact .nil _
  | cons hfirst hnext _ ih => exact .cons (hok _ _ hfirst) hnext ih

/-- What holds of every action of a run may be asked of its steps. -/
theorem of_forall {ok' : A → Prop} {s t : S} {acts : List A} (h : Run step ok s acts t) (hok : ∀ a ∈ acts, ok' a) :
    Run step (fun _ a => ok' a) s acts t := by
  induction h with
  | nil => exact .nil _
  | cons _ hnext _ ih =>
    exact .cons (hok _ List.mem_cons_self) hnext (ih fun a ha => hok a (List.mem_cons_of_mem _ ha))

/-- Under an invariant, steps that meet one condition meet another. -/
theorem upgrade {ok' : S → A → Prop} {s t : S} {acts : List A} (h : Run step ok s acts t) (inv : S → Prop)
    (hinit : inv s) (hstep : ∀ {s a t}, inv s → ok s a → step s a = some t → inv t)
    (hok : ∀ {s a t}, inv s → ok s a → step s a = some t → ok' s a) : Run step ok' s acts t := by
  induction h with
  | nil => exact .nil _
  | cons hfirst hnext _ ih => exact .cons (hok hinit hfirst hnext) hnext (ih (hstep hinit hfirst hnext))

/-- Two runs whose visible actions agree keep a relation that every pair of
equally visible steps and every invisible step keeps. -/
theorem unwinding {V : Type*} (view : A → Option V) {rel : S → S → Prop} {s t s' t' : S} {acts acts' : List A}
    (h : Run step ok s acts t) (h' : Run step ok s' acts' t') (hview : acts.filterMap view = acts'.filterMap view)
    (hinit : rel s s')
    (hboth : ∀ {s a t s' a' t' v}, rel s s' → ok s a → ok s' a' → view a = some v → view a' = some v →
      step s a = some t → step s' a' = some t' → rel t t')
    (hleft : ∀ {s a t s'}, rel s s' → ok s a → view a = none → step s a = some t → rel t s')
    (hright : ∀ {s s' a' t'}, rel s s' → ok s' a' → view a' = none → step s' a' = some t' → rel s t') :
    rel t t' := by
  induction h generalizing s' acts' with
  | nil s =>
    induction h' with
    | nil => exact hinit
    | @cons s' u' t' a' acts' hok' htake' _ ih =>
      cases hv : view a' with
      | some v => simp [hv] at hview
      | none => exact ih (by simpa [hv] using hview) (hright hinit hok' hv htake')
  | @cons s u t a acts hok htake hrest ih =>
    cases hv : view a with
    | none => exact ih h' (by simpa [hv] using hview) (hleft hinit hok hv htake)
    | some v =>
      clear hrest
      induction h' with
      | nil => simp [hv] at hview
      | @cons s' u' t' a' acts' hok' htake' hrest' ih' =>
        cases hv' : view a' with
        | none => exact ih' ih (by simpa [hv, hv'] using hview) (hright hinit hok' hv' htake')
        | some v' =>
          have hpair : v = v' ∧ acts.filterMap view = acts'.filterMap view := by simpa [hv, hv'] using hview
          obtain ⟨rfl, htail⟩ := hpair
          exact ih hrest' htail (hboth hinit hok hok' hv hv' htake htake')

/-- A run seen through a part of the state. Actions that the part does not see leave it as it is. -/
theorem project {S' B : Type*} {step' : S' → B → Option S'} {ok' : S' → B → Prop} {s t : S} {acts : List A}
    (h : Run step ok s acts t) (view : S → S') (act : A → Option B) (inv : S → Prop) (hinit : inv s)
    (hinv : ∀ {s a t}, inv s → step s a = some t → inv t)
    (hseen : ∀ {s a t b}, inv s → ok s a → step s a = some t → act a = some b →
      ok' (view s) b ∧ step' (view s) b = some (view t))
    (hunseen : ∀ {s a t}, inv s → step s a = some t → act a = none → view t = view s) :
    Run step' ok' (view s) (acts.filterMap act) (view t) := by
  induction h with
  | nil => exact .nil _
  | @cons s t u a acts hok htake _ ih =>
    have hrest := ih (hinv hinit htake)
    cases hact : act a with
    | none =>
      rw [List.filterMap_cons_none hact, ← hunseen hinit htake hact]
      exact hrest
    | some b =>
      obtain ⟨hok', htake'⟩ := hseen hinit hok htake hact
      rw [List.filterMap_cons_some hact]
      exact .cons hok' htake' hrest

end Run

/-- The state that actions lead to, when each can be taken. -/
def exec (step : S → A → Option S) : S → List A → Option S
  | s, [] => some s
  | s, a :: acts => (step s a).bind fun t => exec step t acts

/-- Actions that can be taken make a run. -/
theorem run_of_exec {step : S → A → Option S} {acts : List A} {s t : S} (h : exec step s acts = some t) :
    Run step (fun _ _ => True) s acts t := by
  induction acts generalizing s with
  | nil =>
    cases h
    exact .nil _
  | cons a acts ih =>
    obtain ⟨u, htake, hrest⟩ := Option.bind_eq_some_iff.mp h
    exact .cons trivial htake (ih hrest)

/-- A run whose end passes a test. -/
theorem exists_run {step : S → A → Option S} {acts : List A} {s : S} {test : S → Bool}
    (h : (exec step s acts).any test = true) : ∃ t, Run step (fun _ _ => True) s acts t ∧ test t = true := by
  obtain ⟨t, ht, htest⟩ := (Option.any_eq_true _ _).mp h
  exact ⟨t, run_of_exec ht, htest⟩

/-- Actions that can be taken, and whose steps pass a check, make a run. -/
theorem run_of_checked {step : S → A → Option S} {ok : S → A → Prop} {check : S → A → Bool} {acts : List A} {s t : S}
    (hcheck : ∀ s a, check s a = true → ok s a)
    (h : exec (fun s a => if check s a then step s a else none) s acts = some t) : Run step ok s acts t := by
  induction acts generalizing s with
  | nil =>
    cases h
    exact .nil _
  | cons a acts ih =>
    obtain ⟨u, hguard, hrest⟩ := Option.bind_eq_some_iff.mp h
    obtain ⟨hpass, htake⟩ := Option.ite_none_right_eq_some.mp hguard
    exact .cons (hcheck s a hpass) htake (ih hrest)

/-- A run whose steps pass a check, and whose end passes a test. -/
theorem exists_checked {step : S → A → Option S} {ok : S → A → Prop} {check : S → A → Bool} {acts : List A} {s : S}
    {test : S → Bool} (hcheck : ∀ s a, check s a = true → ok s a)
    (h : (exec (fun s a => if check s a then step s a else none) s acts).any test = true) :
    ∃ t, Run step ok s acts t ∧ test t = true := by
  obtain ⟨t, ht, htest⟩ := (Option.any_eq_true _ _).mp h
  exact ⟨t, run_of_checked hcheck ht, htest⟩

end Transition
