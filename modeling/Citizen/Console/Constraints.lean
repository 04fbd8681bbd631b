import Citizen.Console.Replication

open console (Text)
open Transition

namespace ConsoleVariables.Constrained

/-- A value of an arithmetic type. Integers have no `nan`. -/
inductive Number (R : Type)
  | number (x : R)
  | nan
  deriving DecidableEq

section Source

variable {R : Type} [LinearOrder R]

namespace Number

/-- `Less`. -/
def less : Number R → Number R → Bool
  | number x, number y => x < y
  | _, _ => false

/-- `Greater`. -/
def greater (value other : Number R) : Bool := other.less value

/-- `Equal`. -/
def equal : Number R → Number R → Bool
  | number x, number y => x = y
  | _, _ => false

/-- `Constraints<T>::Compare`. -/
def compare (value minValue maxValue : Number R) : Bool := !value.greater maxValue && !value.less minValue

end Number

/-- `ParseArgument` and `UnparseArgument` of the type. -/
structure Types (R : Type) where
  parse : Text → Option (Number R)
  unparse : Number R → Text

/-- The entry of the name: whether it is this variable's, or another one's that was registered later, and its flags. -/
structure Registration where
  current : Bool
  flags : Flags
  deriving DecidableEq

/-- The variable. The values that `GetValue` and `GetRawValue` have reported are there for the record. -/
structure Variable (R : Type) where
  minValue : R
  maxValue : R
  curValue : Number R
  trackingVar : Option (Number R)
  entry : Option Registration
  reported : List (Number R) := []
  deriving DecidableEq

namespace Variable

variable (self : Variable R)

/-- `GetEntryFlags`. -/
def flags : Flags := (self.entry.map Registration.flags).getD {}

/-- `AddEntryFlags`. -/
def addFlags (flags : Flags) : Variable R :=
  { self with entry := self.entry.map fun entry => { entry with flags := entry.flags.or flags } }

/-- The tracked value, where it differs from the current one. -/
def changed : Option (Number R) := self.trackingVar.filter fun value => !value.equal self.curValue

/-- `GetValue`. -/
def getValue : Variable R :=
  let curValue := self.changed.getD self.curValue
  { self with curValue, reported := self.reported ++ [curValue] }

def getRawValue : Variable R := { self with reported := self.reported ++ [self.curValue] }

/-- `SetRawValue`, and whether it sets the value. The clients ask for a privilege to set what is replicated. -/
def setRawValue (newValue : Number R) (privileged : Bool) : Variable R × Bool :=
  if !newValue.compare (.number self.minValue) (.number self.maxValue) then (self, false)
  else if self.flags.replicated && !privileged then (self, false)
  else
    let oldValue := self.curValue
    let self := { self with curValue := newValue, trackingVar := self.trackingVar.map fun _ => newValue }
    (if !oldValue.equal newValue then self.addFlags { modified := true } else self, true)

/-- `SetValue`. -/
def setValue (types : Types R) (value : Text) (privileged : Bool) : Variable R × Bool :=
  if self.flags.readOnly then (self, false)
  else
    match types.parse value with
    | some newValue => self.setRawValue newValue privileged
    | none => (self, false)

/-- `m_setCommand` of the variable. -/
def set (newValue : Number R) (privileged : Bool) : Variable R × Bool :=
  if self.flags.readOnly then (self, false) else self.setRawValue newValue privileged

/-- `UpdateTrackingVariable`. -/
def updateTrackingVariable (privileged : Bool) : Variable R × Bool :=
  match self.changed with
  | some value => self.setRawValue value privileged
  | none => (self, true)

/-- The value that `toggle` sets after `GetValue`. -/
def toggled (types : Types R) (value1 value2 : Text) : Text :=
  let v := types.unparse self.curValue
  let v := if v = console.literal "true" then console.literal "1" else if v = console.literal "false"
    then console.literal "0" else v
  if v = value1 then value2 else value1

/-- The name's entry is this variable's. -/
def isCurrent : Bool := self.entry.any Registration.current

end Variable

/-- A console command that a variable has to do with. -/
inductive Command (R : Type)
  /-- The name, which prints the value. -/
  | get
  /-- The name with a value. -/
  | set (newValue : Number R) (privileged : Bool)
  /-- `set`, `seta`, `sets` and `setr`, with the name. -/
  | setCommand (command : SetCommand) (value : Text) (privileged : Bool)
  | toggle (value1 value2 : Text) (privileged : Bool)
  /-- `vstr`, `+vstr` and `-vstr`. -/
  | vstr

/-- What happens to a variable. -/
inductive Action (R : Type)
  | command (command : Command R)
  | setValue (value : Text) (privileged : Bool)
  | setRawValue (newValue : Number R) (privileged : Bool)
  | getValue
  | getRawValue
  | updateTrackingVariable (privileged : Bool)
  /-- The program writes to the variable that is tracked. -/
  | assign (value : Number R)
  /-- The constructor of `ConVar<T>` for the same name. -/
  | register (sameType : Bool) (flags : Flags) (tracks : Bool)
  | unregister
  | addFlags (flags : Flags)
  | setFlags (flags : Flags)

variable (types : Types R)

/-- A command acts on the variable that the name stands for, except for those that the variable has registered
itself. -/
def runCommand (self : Variable R) : Command R → Variable R
  | .get => self.getValue
  | .set newValue privileged => (self.set newValue privileged).1
  | .setCommand command value privileged =>
    match self.entry with
    | none => { self with entry := some ⟨false, ({ modified := true } : Flags).or command.addFlags⟩ }
    | some entry =>
      (if entry.current then (self.setValue types value privileged).1 else self).addFlags command.addFlags
  | .toggle value1 value2 privileged =>
    if self.isCurrent then (self.getValue.setValue types (self.getValue.toggled types value1 value2) privileged).1
      else self
  | .vstr => if self.isCurrent then self.getValue else self

def step (self : Variable R) : Action R → Variable R
  | .command command => runCommand types self command
  | .setValue value privileged => (self.setValue types value privileged).1
  | .setRawValue newValue privileged => (self.setRawValue newValue privileged).1
  | .getValue => self.getValue
  | .getRawValue => self.getRawValue
  | .updateTrackingVariable privileged => (self.updateTrackingVariable privileged).1
  | .assign value => { self with trackingVar := self.trackingVar.map fun _ => value }
  | .register sameType flags tracks =>
    if self.isCurrent then
      if sameType then
        { self with
          entry := some ⟨true, flags⟩
          trackingVar := if tracks then some self.curValue else self.trackingVar }
      else { self.getValue with entry := some ⟨false, flags⟩ }
    else { self with entry := some ⟨false, flags⟩ }
  | .unregister => { self with entry := none }
  | .addFlags flags => self.addFlags flags
  | .setFlags flags => { self with entry := self.entry.map fun entry => { entry with flags } }

/-- A value lies within the constraints. -/
def Variable.Within (self : Variable R) (value : Number R) : Prop :=
  ∃ x, value = .number x ∧ self.minValue ≤ x ∧ x ≤ self.maxValue

instance (var : Variable R) : (value : Number R) → Decidable (var.Within value)
  | .number x =>
    decidable_of_iff (var.minValue ≤ x ∧ x ≤ var.maxValue)
      ⟨fun h => ⟨x, rfl, h⟩, fun ⟨_, hx, h⟩ => by cases hx; exact h⟩
  | .nan => .isFalse fun ⟨_, hx, _⟩ => nomatch hx

/-- A step calls `GetValue` of the variable. -/
def reads (var : Variable R) : Action R → Bool
  | .command .get | .getValue => true
  | .command (.toggle _ _ _) | .command .vstr | .register false _ _ => var.isCurrent
  | _ => false

def isCommand : Action R → Bool
  | .command _ => true
  | _ => false

/-- The text that a step gives to `SetValue` of the variable. -/
def valueText (var : Variable R) : Action R → Option (Text × Bool)
  | .command (.setCommand _ value privileged) => if var.isCurrent then some (value, privileged) else none
  | .command (.toggle value1 value2 privileged) =>
    if var.isCurrent then some (var.getValue.toggled types value1 value2, privileged) else none
  | .setValue value privileged => some (value, privileged)
  | _ => none

/-- The value that a step gives to `SetRawValue`. -/
def rawValue (var : Variable R) : Action R → Option (Number R × Bool)
  | .command (.set newValue privileged) => if var.flags.readOnly then none else some (newValue, privileged)
  | .setRawValue newValue privileged => some (newValue, privileged)
  | .updateTrackingVariable privileged => var.changed.map fun value => (value, privileged)
  | action =>
    if var.flags.readOnly then none
    else (valueText types var action).bind fun (value, privileged) => (types.parse value).map fun value =>
      (value, privileged)

/-- `GetValue` finds a tracked value that the constraints let in, which no command does for a variable that is read
only, and `SetRawValue` is not asked to set what is not a number. -/
structure Allowed (var : Variable R) (action : Action R) : Prop where
  tracked : reads var action = true → ∀ value ∈ var.changed,
    var.Within value ∧ ¬ (isCommand action = true ∧ var.flags.readOnly = true)
  number : ∀ raw ∈ rawValue types var action, raw.1 = .nan → var.flags.replicated = true ∧ raw.2 = false

instance (var : Variable R) (action : Action R) : Decidable (Allowed types var action) :=
  decidable_of_iff
    ((reads var action = true → ∀ value ∈ var.changed,
      var.Within value ∧ ¬ (isCommand action = true ∧ var.flags.readOnly = true)) ∧
      ∀ raw ∈ rawValue types var action, raw.1 = .nan → var.flags.replicated = true ∧ raw.2 = false)
    ⟨fun h => ⟨h.1, h.2⟩, fun h => ⟨h.1, h.2⟩⟩

/-- A step tries to set the value, and does not. -/
def rejects (var : Variable R) : Action R → Bool
  | .command (.set newValue privileged) => !(var.set newValue privileged).2
  | .command (.setCommand _ value privileged) => var.isCurrent && !(var.setValue types value privileged).2
  | .setValue value privileged => !(var.setValue types value privileged).2
  | .setRawValue newValue privileged => !(var.setRawValue newValue privileged).2
  | .updateTrackingVariable privileged => !(var.updateTrackingVariable privileged).2
  | _ => false

/-- A step by which a variable that is read only must not change. -/
def setsValue : Action R → Bool
  | .command _ | .setValue _ _ => true
  | _ => false

/-- The constraints hold for what was reported, and a step leaves alone what it must not change. -/
structure Sound (ok : Variable R → Action R → Prop) (init var : Variable R) : Prop where
  reported : ∀ value ∈ var.reported, init.Within value
  readOnly : ∀ action, setsValue action = true → ok var action → var.flags.readOnly = true →
    (step types var action).curValue = var.curValue
  rejected : ∀ action, rejects types var action = true →
    (step types var action).curValue = var.curValue ∧ (step types var action).trackingVar = var.trackingVar ∧
      (step types var action).flags.modified = var.flags.modified

/-- The current value and the reported ones lie within the constraints that the variable had from the start. -/
structure Inv (init var : Variable R) : Prop where
  bounds : var.minValue = init.minValue ∧ var.maxValue = init.maxValue
  curValue : init.Within var.curValue
  reported : ∀ value ∈ var.reported, init.Within value

namespace Inv

variable {types} {init var : Variable R}

/-- What is neither a value nor a constraint may change. -/
theorem congr (h : Inv init var) {other : Variable R} (hmin : other.minValue = var.minValue)
    (hmax : other.maxValue = var.maxValue) (hcur : other.curValue = var.curValue)
    (hreported : other.reported = var.reported) :
    Inv init other := by
  obtain ⟨⟨hmin', hmax'⟩, hvalue, hlog⟩ := h
  exact ⟨⟨hmin.trans hmin', hmax.trans hmax'⟩, hcur ▸ hvalue, hreported ▸ hlog⟩

theorem within (h : Inv init var) {value : Number R} (hvalue : var.Within value) : init.Within value := by
  obtain ⟨x, rfl, hlow, hhigh⟩ := hvalue
  exact ⟨x, rfl, h.bounds.1 ▸ hlow, h.bounds.2 ▸ hhigh⟩

theorem getRawValue (h : Inv init var) : Inv init var.getRawValue := by
  refine ⟨h.bounds, h.curValue, fun value hvalue => ?_⟩
  rcases List.mem_append.mp hvalue with hold | hnew
  · exact h.reported value hold
  · exact List.mem_singleton.mp hnew ▸ h.curValue

theorem getValue (h : Inv init var) (htracked : ∀ value ∈ var.changed, var.Within value) : Inv init var.getValue := by
  have hcur : init.Within (var.changed.getD var.curValue) := by
    cases hchanged : var.changed with
    | none => exact h.curValue
    | some value => exact h.within (htracked value hchanged)
  refine ⟨h.bounds, hcur, fun value hvalue => ?_⟩
  rcases List.mem_append.mp hvalue with hold | hnew
  · exact h.reported value hold
  · exact List.mem_singleton.mp hnew ▸ hcur

/-- `Compare` lets in what lies within the constraints, and what is not a number. -/
theorem setRawValue (h : Inv init var) {newValue : Number R} {privileged : Bool}
    (hnumber : newValue = .nan → var.flags.replicated = true ∧ privileged = false) :
    Inv init (var.setRawValue newValue privileged).1 := by
  rw [Variable.setRawValue]
  split_ifs with hcompare hprivilege
  · exact h
  · exact h
  · have hwithin : var.Within newValue := by
      cases newValue with
      | nan =>
        obtain ⟨hreplicated, hclient⟩ := hnumber rfl
        simp [hreplicated, hclient] at hprivilege
      | number x =>
        simp [Number.compare, Number.greater, Number.less] at hcompare
        exact ⟨x, rfl, hcompare.2, hcompare.1⟩
    have hset : Inv init { var with curValue := newValue, trackingVar := var.trackingVar.map fun _ => newValue } :=
      ⟨h.bounds, h.within hwithin, h.reported⟩
    dsimp only
    split
    · exact hset.congr rfl rfl rfl rfl
    · exact hset

theorem setValue (h : Inv init var) {value : Text} {privileged : Bool}
    (hnumber : var.flags.readOnly = false → types.parse value = some .nan → var.flags.replicated = true ∧
      privileged = false) :
    Inv init (var.setValue types value privileged).1 := by
  rw [Variable.setValue]
  split
  · exact h
  · rename_i hreadOnly
    cases hparse : types.parse value with
    | none => exact h
    | some newValue => exact h.setRawValue fun hnan => hnumber (by simpa using hreadOnly) (hnan ▸ hparse)

theorem runCommand (h : Inv init var) {command : Command R} (hallowed : Allowed types var (.command command)) :
    Inv init (runCommand types var command) := by
  have htracked := hallowed.tracked
  have hnumber := hallowed.number
  cases command with
  | get => exact h.getValue fun value hvalue => (htracked rfl value hvalue).1
  | set newValue privileged =>
    rw [Constrained.runCommand, Variable.set]
    split
    · exact h
    · rename_i hreadOnly
      exact h.setRawValue fun hnan => hnumber (newValue, privileged) (if_neg hreadOnly) hnan
  | setCommand command value privileged =>
    rw [Constrained.runCommand]
    split
    · exact h.congr rfl rfl rfl rfl
    · rename_i entry hentry
      split
      · rename_i hcurrent
        refine (h.setValue fun hreadOnly hparse => ?_).congr rfl rfl rfl rfl
        exact hnumber (.nan, privileged)
          (by simp [rawValue, hreadOnly, valueText, Variable.isCurrent, hentry, hcurrent, hparse]) rfl
      · exact h.congr rfl rfl rfl rfl
  | toggle value1 value2 privileged =>
    rw [Constrained.runCommand]
    split
    · rename_i hcurrent
      refine (h.getValue fun value hvalue => (htracked hcurrent value hvalue).1).setValue fun hreadOnly hparse => ?_
      have hflags : var.getValue.flags = var.flags := rfl
      rw [hflags] at hreadOnly ⊢
      exact hnumber (.nan, privileged) (by simp [rawValue, hreadOnly, valueText, hcurrent, hparse]) rfl
    · exact h
  | vstr =>
    rw [Constrained.runCommand]
    split
    · rename_i hcurrent
      exact h.getValue fun value hvalue => (htracked hcurrent value hvalue).1
    · exact h

theorem step (h : Inv init var) {action : Action R} (hallowed : Allowed types var action) :
    Inv init (step types var action) := by
  have htracked := hallowed.tracked
  have hnumber := hallowed.number
  cases action with
  | command command => exact h.runCommand hallowed
  | setValue value privileged =>
    refine h.setValue fun hreadOnly hparse => ?_
    exact hnumber (.nan, privileged) (by simp [rawValue, hreadOnly, valueText, hparse]) rfl
  | setRawValue newValue privileged => exact h.setRawValue fun hnan => hnumber (newValue, privileged) rfl hnan
  | getValue => exact h.getValue fun value hvalue => (htracked rfl value hvalue).1
  | getRawValue => exact h.getRawValue
  | updateTrackingVariable privileged =>
    rw [Constrained.step, Variable.updateTrackingVariable]
    cases hchanged : var.changed with
    | none => exact h
    | some value => exact h.setRawValue fun hnan => hnumber (value, privileged) (by simp [rawValue, hchanged]) hnan
  | register sameType flags tracks =>
    rw [Constrained.step]
    split
    · rename_i hcurrent
      cases sameType with
      | true => exact h.congr rfl rfl rfl rfl
      | false => exact (h.getValue fun value hvalue => (htracked hcurrent value hvalue).1).congr rfl rfl rfl rfl
    · exact h.congr rfl rfl rfl rfl
  | _ => exact h.congr rfl rfl rfl rfl

end Inv

section Steps

variable {types} {var : Variable R} {value : Text} {newValue : Number R} {privileged : Bool}

theorem setRawValue_rejected (h : (var.setRawValue newValue privileged).2 = false) :
    (var.setRawValue newValue privileged).1 = var := by
  rw [Variable.setRawValue] at h ⊢
  split_ifs at h ⊢
  · rfl
  · rfl

theorem setValue_rejected (h : (var.setValue types value privileged).2 = false) :
    (var.setValue types value privileged).1 = var := by
  rw [Variable.setValue] at h ⊢
  by_cases hreadOnly : var.flags.readOnly = true
  · rw [if_pos hreadOnly]
  · rw [if_neg hreadOnly] at h ⊢
    cases hparse : types.parse value with
    | none => rfl
    | some newValue =>
      rw [hparse] at h
      exact setRawValue_rejected h

theorem set_rejected (h : (var.set newValue privileged).2 = false) : (var.set newValue privileged).1 = var := by
  rw [Variable.set] at h ⊢
  by_cases hreadOnly : var.flags.readOnly = true
  · rw [if_pos hreadOnly]
  · rw [if_neg hreadOnly] at h ⊢
    exact setRawValue_rejected h

theorem updateTrackingVariable_rejected (h : (var.updateTrackingVariable privileged).2 = false) :
    (var.updateTrackingVariable privileged).1 = var := by
  rw [Variable.updateTrackingVariable] at h ⊢
  cases hchanged : var.changed with
  | none => rfl
  | some value =>
    rw [hchanged] at h
    exact setRawValue_rejected h

omit [LinearOrder R] in
/-- No command adds the flag of what was modified. -/
theorem modified_addFlags (command : SetCommand) :
    (var.addFlags command.addFlags).flags.modified = var.flags.modified := by
  obtain ⟨minValue, maxValue, curValue, trackingVar, entry, reported⟩ := var
  cases entry with
  | none => rfl
  | some entry => cases command <;> exact Bool.or_false _

theorem setValue_readOnly (h : var.flags.readOnly = true) : var.setValue types value privileged = (var, false) :=
    if_pos h

theorem getValue_unchanged (h : var.changed = none) : var.getValue.curValue = var.curValue := by
  simp [Variable.getValue, h]

theorem step_rejected {action : Action R} (h : rejects types var action = true) :
    (step types var action).curValue = var.curValue ∧ (step types var action).trackingVar = var.trackingVar ∧
      (step types var action).flags.modified = var.flags.modified := by
  have hsame : ∀ {next : Variable R}, next = var → next.curValue = var.curValue ∧ next.trackingVar = var.trackingVar ∧
      next.flags.modified = var.flags.modified := fun heq => heq ▸ ⟨rfl, rfl, rfl⟩
  cases action with
  | setValue value privileged => exact hsame (setValue_rejected (by simpa [rejects] using h))
  | setRawValue newValue privileged => exact hsame (setRawValue_rejected (by simpa [rejects] using h))
  | updateTrackingVariable privileged => exact hsame (updateTrackingVariable_rejected (by simpa [rejects] using h))
  | command command =>
    cases command with
    | set newValue privileged => exact hsame (set_rejected (by simpa [rejects] using h))
    | setCommand command value privileged =>
      rw [rejects, Bool.and_eq_true, Bool.not_eq_true'] at h
      obtain ⟨hcurrent, hset⟩ := h
      rw [step, runCommand]
      cases hentry : var.entry with
      | none => simp [Variable.isCurrent, hentry] at hcurrent
      | some entry =>
        rw [Variable.isCurrent, hentry, Option.any_some] at hcurrent
        simp only [hcurrent, if_true, setValue_rejected hset]
        exact ⟨rfl, rfl, modified_addFlags command⟩
    | _ => cases h
  | _ => cases h

theorem step_readOnly {action : Action R} (hsets : setsValue action = true) (hallowed : Allowed types var action)
    (hreadOnly : var.flags.readOnly = true) : (step types var action).curValue = var.curValue := by
  have hgetValue : isCommand action = true → reads var action = true → var.getValue.curValue = var.curValue := by
    intro hcommand hreads
    refine getValue_unchanged (Option.eq_none_iff_forall_not_mem.mpr fun value hvalue => ?_)
    exact (hallowed.tracked hreads value hvalue).2 ⟨hcommand, hreadOnly⟩
  cases action with
  | setValue value privileged => rw [step, setValue_readOnly hreadOnly]
  | command command =>
    cases command with
    | get => exact hgetValue rfl rfl
    | set newValue privileged => rw [step, runCommand, Variable.set, if_pos hreadOnly]
    | setCommand command value privileged =>
      rw [step, runCommand, setValue_readOnly hreadOnly]
      split
      · rfl
      · simp only [ite_self]
        rfl
    | toggle value1 value2 privileged =>
      rw [step, runCommand]
      split
      · rename_i hcurrent
        rw [setValue_readOnly (show var.getValue.flags.readOnly = true from hreadOnly)]
        exact hgetValue rfl hcurrent
      · rfl
    | vstr =>
      rw [step, runCommand]
      split
      · rename_i hcurrent
        exact hgetValue rfl hcurrent
      · rfl
  | _ => cases hsets

end Steps

variable {types} {init var : Variable R} {actions : List (Action R)}

/-- The constraints hold in every run that starts within them: `Allowed` keeps out only a tracked value that the
code has changed behind the variable, and a value that is not a number. -/
theorem sound_of_run (hinit : init.Within init.curValue) (hreported : init.reported = [])
    (hrun : Run (fun var action => some (step types var action)) (Allowed types) init actions var) :
    Sound types (Allowed types) init var := by
  have hinv : Inv init var := by
    refine hrun.invariant (Inv init) ⟨⟨rfl, rfl⟩, hinit, by simp [hreported]⟩ ?_
    intro var action next h hallowed hstep
    exact Option.some.inj hstep ▸ h.step hallowed
  exact ⟨hinv.reported, fun action hsets hallowed hreadOnly => step_readOnly hsets hallowed hreadOnly,
    fun action h => step_rejected h⟩

end Source

/-- Small numbers, written with one digit. -/
def digits : Types Int where
  parse text := if text.length = 1 then some (.number ((text.headD 0).toNat - 48)) else none
  unparse
    | .number x => [BitVec.ofInt 8 (x + 48)]
    | .nan => []

/-- A variable between 1 and 5 that is tracked. -/
def tracked : Variable Int where
  minValue := 1
  maxValue := 5
  curValue := .number 3
  trackingVar := some (.number 3)
  entry := some ⟨true, {}⟩

theorem sound_of_run_sample : ∃ var : Variable Int, var.reported = [.number 4, .number 2] ∧
    Sound digits (Allowed digits) tracked var := by
  have hend : ((exec (fun var action => if decide (Allowed digits var action) then some (step digits var action)
      else none) tracked [.command (.setCommand .set [52] true), .setValue [57] true, .getValue, .assign (.number 2),
        .command .get]).any fun var =>
        var.reported == [.number 4, .number 2]) = true := by decide
  obtain ⟨var, hrun, hreported⟩ := exists_checked (fun var action hcheck => of_decide_eq_true hcheck) hend
  exact ⟨var, beq_iff_eq.mp hreported, sound_of_run ⟨3, rfl, by decide, by decide⟩ rfl hrun⟩

/-- The program writes 9 to the variable that is tracked, and `GetValue` reports it. -/
theorem not_sound_assign : ¬ ∀ (init var : Variable Int) (actions : List (Action Int)), init.Within init.curValue →
    init.reported = [] → Run (fun var action => some (step digits var action)) (fun _ _ => True) init actions var →
    Sound digits (fun _ _ => True) init var := by
  intro hall
  have hend : ((exec (fun var action => some (step digits var action)) tracked [.assign (.number 9),
    .getValue]).any fun var =>
      var.reported == [.number 9]) = true := by decide
  obtain ⟨var, hrun, hreported⟩ := exists_run hend
  have hsound := hall tracked var _ ⟨3, rfl, by decide, by decide⟩ rfl hrun
  obtain ⟨x, hx, _, hle⟩ := hsound.reported (.number 9) (by simp [beq_iff_eq.mp hreported])
  cases hx
  exact absurd hle (by decide)

end ConsoleVariables.Constrained
