import Citizen.Console.Variables
import Citizen.Lib.Transition

open console (Text sameName literal)
open Transition

namespace ConsoleVariables

variable {Kind Value : Type}

/-- A connected client and the variables sent to it, the last ones first. -/
structure Client where
  netId : Nat
  received : List (Text × Text) := []
  deriving DecidableEq

namespace Client

/-- `sendVariableList`. -/
def sendVariableList (client : Client) (list : List (Text × Text)) : Client :=
  { client with received := list ++ client.received }

/-- The value of a variable that was last sent to the client. -/
def lastSent (client : Client) (name : Text) : Option Text :=
  (client.received.find? fun pair => sameName pair.1 name).map Prod.snd

end Client

/-- The variables of the server and its connected clients. -/
structure Server (Kind Value : Type) where
  manager : ConsoleVariableManager Kind Value := {}
  clients : List Client := []

/-- A `ConVar` that a component constructs. -/
structure ConVar (Kind Value : Type) where
  name : Text
  flags : Flags
  kind : Kind
  defaultValue : Value
  /-- It comes with a program variable to track. -/
  tracks : Bool
  deriving DecidableEq

/-- The commands that `setCommand` is behind. -/
inductive SetCommand
  | set | seta | sets | setr
  deriving DecidableEq

/-- The flags that a command adds. -/
def SetCommand.addFlags : SetCommand → Flags
  | .set => {}
  | .seta => { archive := true }
  | .sets => { serverInfo := true }
  | .setr => { replicated := true }

/-- What happens to the variables and the clients. -/
inductive Action (Kind Value : Type)
  | set (command : SetCommand) (name value : Text)
  /-- The constructor of `ConVar<T>`. -/
  | register (convar : ConVar Kind Value)
  /-- `SetConstraints`. -/
  | constrain (name : Text) (minValue maxValue : Value)
  /-- The program writes to a variable that is tracked. -/
  | assign (name : Text) (value : Value)
  | connect (netId : Nat)
  | drop (netId : Nat)
  | tick
  deriving DecidableEq

namespace Server

section Handlers

variable (types : Arguments Kind Value) (server : Server Kind Value)

/-- The entries that meet a test, with their values. -/
def variableList (test : Flags → Bool) : List (Text × Text) :=
  (server.manager.entries.filter fun entry => test entry.flags).map fun entry => (entry.name, entry.value types)

/-- `OnConnectedClient`: the client gets every replicated variable. -/
def onConnectedClient (netId : Nat) : Server Kind Value where
  manager := server.manager.mapEntries (fun entry => if entry.flags.replicated then entry.refreshed types else entry)
    fun entry => by split_ifs <;> rfl
  clients :=
    let client := (server.clients.find? fun client => client.netId = netId).getD { netId }
    server.clients.filter (fun client => client.netId ≠ netId) ++
      [client.sendVariableList (server.variableList types Flags.replicated)]

/-- An entry whose value is sent is not modified any longer. -/
def sent (entry : Entry Kind Value) : Entry Kind Value :=
  if entry.flags.pending then { entry.refreshed types with flags := entry.flags.unmodified } else entry

/-- `OnTick`: every client gets the replicated variables that were modified. -/
def onTick : Server Kind Value :=
  let list := server.variableList types Flags.pending
  { manager := server.manager.mapEntries (sent types) fun entry => by unfold sent; split_ifs <;> rfl
    clients := if list.isEmpty then server.clients else server.clients.map fun client => client.sendVariableList list }

/-- The constructor of `ConVar<T>`. -/
def register [DecidableEq Kind] (convar : ConVar Kind Value) : Server Kind Value :=
  let var := server.manager.createVariableEntry types convar.name convar.kind convar.defaultValue
  { server with manager := server.manager.register convar.name convar.flags (var.track convar.tracks) }

end Handlers

/-- A step of the server. -/
def step [DecidableEq Kind] (types : Arguments Kind Value) (server : Server Kind Value) :
    Action Kind Value → Server Kind Value
  | .set command name value => { server with manager := server.manager.setCommand types command.addFlags name value }
  | .register convar => server.register types convar
  | .constrain name minValue maxValue =>
    let constrain (entry : Entry Kind Value) : Entry Kind Value :=
      { entry with var := { entry.var with constraints := some (minValue, maxValue) } }
    { server with manager := server.manager.modify name constrain fun _ => rfl }
  | .assign name value =>
    let assign (entry : Entry Kind Value) : Entry Kind Value := { entry with var := entry.var.assign value }
    { server with manager := server.manager.modify name assign fun _ => rfl }
  | .connect netId => server.onConnectedClient types netId
  | .drop netId => { server with clients := server.clients.filter fun client => client.netId ≠ netId }
  | .tick => server.onTick types

/-- Every connected client was last sent the current value of every replicated variable that meets a test. -/
def Sent (types : Arguments Kind Value) (server : Server Kind Value) (test : Flags → Bool) : Prop :=
  ∀ entry ∈ server.manager.entries, entry.flags.replicated = true → test entry.flags = true →
    ∀ client ∈ server.clients, client.lastSent entry.name = some (entry.value types)

instance (types : Arguments Kind Value) (server : Server Kind Value) (test : Flags → Bool) :
    Decidable (server.Sent types test) :=
  List.decidableBAll _ server.manager.entries

/-- The replicated variables have converged. -/
def Converged (types : Arguments Kind Value) (server : Server Kind Value) : Prop := server.Sent types fun _ => true

instance (types : Arguments Kind Value) (server : Server Kind Value) : Decidable (server.Converged types) :=
  inferInstanceAs (Decidable (server.Sent types _))

/-- Only the variables that are marked modified are still to be sent. -/
def InSync (types : Arguments Kind Value) (server : Server Kind Value) : Prop :=
  server.Sent types fun flags => !flags.modified

end Server

/-- A set command does not leave an entry replicated, unmodified and with a value that was not sent: the entry is
not replicated after the command, is modified, gets a value that differs, or is replicated already and keeps its
value. -/
def Entry.SetAllowed (types : Arguments Kind Value) (entry : Entry Kind Value) (addFlags : Flags)
    (value : Text) : Prop :=
  (entry.flags.replicated || addFlags.replicated) = false ∨ entry.flags.modified = true ∨
    match entry.var.accepts types entry.flags.readOnly value with
    | some newValue => types.equal entry.var.curValue newValue = false ∨
        (entry.flags.replicated = true ∧ types.unparse newValue = entry.value types)
    | none => entry.flags.replicated = true

instance (types : Arguments Kind Value) (entry : Entry Kind Value) (addFlags : Flags) (value : Text) :
    Decidable (entry.SetAllowed types addFlags value) :=
  match h : entry.var.accepts types entry.flags.readOnly value with
  | some newValue =>
    decidable_of_iff ((entry.flags.replicated || addFlags.replicated) = false ∨ entry.flags.modified = true ∨
      (types.equal entry.var.curValue newValue = false ∨
        (entry.flags.replicated = true ∧ types.unparse newValue = entry.value types))) (by rw [Entry.SetAllowed, h])
  | none => decidable_of_iff ((entry.flags.replicated || addFlags.replicated) = false ∨ entry.flags.modified = true ∨
      entry.flags.replicated = true) (by rw [Entry.SetAllowed, h])

namespace Server

variable [DecidableEq Kind] {types : Arguments Kind Value} {server : Server Kind Value}

/-- The entry of a name, if there is one, meets a condition. -/
def Meets (server : Server Kind Value) (name : Text) (condition : Entry Kind Value → Prop) : Prop :=
  ∀ entry ∈ server.manager.entries, sameName entry.name name → condition entry

instance (server : Server Kind Value) (name : Text) (condition : Entry Kind Value → Prop) [DecidablePred condition] :
    Decidable (server.Meets name condition) :=
  List.decidableBAll _ server.manager.entries

/-- A `ConVar` is not replicated, is registered as modified, or takes the place of a variable that is replicated,
has been sent and has the same value. -/
def RegisterAllowed (types : Arguments Kind Value) (server : Server Kind Value) (convar : ConVar Kind Value) : Prop :=
  convar.flags.replicated = false ∨ convar.flags.modified = true ∨
    ∃ old ∈ server.manager.entries, sameName old.name convar.name ∧ old.flags.replicated = true ∧
      old.flags.modified = false ∧
        ((server.manager.createVariableEntry types convar.name convar.kind convar.defaultValue).track
          convar.tracks).getValue types = old.value types

instance (types : Arguments Kind Value) (server : Server Kind Value) (convar : ConVar Kind Value) :
    Decidable (server.RegisterAllowed types convar) :=
  let _ := List.decidableBEx (fun old : Entry Kind Value => sameName old.name convar.name ∧
    old.flags.replicated = true ∧ old.flags.modified = false ∧
      ((server.manager.createVariableEntry types convar.name convar.kind convar.defaultValue).track
        convar.tracks).getValue types = old.value types) server.manager.entries
  inferInstanceAs (Decidable (_ ∨ _ ∨ _))

/-- A step under which what the clients know keeps up with the variables. It asks nothing while no client is
connected. -/
def Allowed (types : Arguments Kind Value) (server : Server Kind Value) (action : Action Kind Value) : Prop :=
  server.clients = [] ∨
    match action with
    | .set command name value => server.Meets name fun entry => entry.SetAllowed types command.addFlags value
    | .register convar => server.RegisterAllowed types convar
    | .assign name value =>
      server.Meets name fun entry => entry.flags.replicated = false ∨ entry.flags.modified = true ∨
        (entry.var.assign value).getValue types = entry.value types
    | _ => True

instance (types : Arguments Kind Value) (server : Server Kind Value) (action : Action Kind Value) :
    Decidable (server.Allowed types action) :=
  let _ : Decidable (server.clients = []) := inferInstance
  match action with
  | .set .. => inferInstanceAs (Decidable (_ ∨ Meets _ _ _))
  | .register _ => inferInstanceAs (Decidable (_ ∨ RegisterAllowed _ _ _))
  | .assign _ _ => inferInstanceAs (Decidable (_ ∨ Meets _ _ _))
  | .constrain .. | .connect _ | .drop _ | .tick => inferInstanceAs (Decidable (_ ∨ True))

end Server

theorem ConsoleVariableManager.entry_unique {manager : ConsoleVariableManager Kind Value}
    {left right : Entry Kind Value} (hleft : left ∈ manager.entries) (hright : right ∈ manager.entries)
    (h : sameName left.name right.name) : left = right := by
  have hfind := manager.find_of_mem hleft h
  rw [manager.find_of_mem hright rfl] at hfind
  exact (Option.some.inj hfind).symm

namespace Server

variable {types : Arguments Kind Value} {server : Server Kind Value}

/-- The list that is sent has at most one value for a variable. -/
theorem find?_variableList {entry : Entry Kind Value} (hmem : entry ∈ server.manager.entries) (test : Flags → Bool) :
    (server.variableList types test).find? (fun pair => sameName pair.1 entry.name) =
      if test entry.flags then some (entry.name, entry.value types) else none := by
  rw [variableList, List.find?_map, List.find?_filter]
  simp only [Function.comp, decide_eq_true_eq]
  cases hfind : server.manager.entries.find? fun other =>
    decide (test other.flags = true ∧ sameName other.name entry.name) with
  | none =>
    have hnone := List.find?_eq_none.mp hfind entry hmem
    have htest : ¬ test entry.flags = true := fun h => hnone (by simp [h, sameName])
    rw [if_neg htest]
    rfl
  | some other =>
    have hother : test other.flags = true ∧ sameName other.name entry.name := by simpa using List.find?_some hfind
    obtain rfl := ConsoleVariableManager.entry_unique (List.mem_of_find?_eq_some hfind) hmem hother.2
    rw [if_pos hother.1]
    rfl

theorem lastSent_variableList {entry : Entry Kind Value} (hmem : entry ∈ server.manager.entries) (test : Flags → Bool)
    (client : Client) : (client.sendVariableList (server.variableList types test)).lastSent entry.name =
      if test entry.flags then some (entry.value types) else client.lastSent entry.name := by
  rw [Client.lastSent, Client.sendVariableList, List.find?_append, find?_variableList hmem]
  split_ifs
  · rfl
  · rw [Option.none_or, Client.lastSent]

/-- An entry is to be sent, or has the value of an old one that was sent. -/
def Known (types : Arguments Kind Value) (server : Server Kind Value) (entry : Entry Kind Value) : Prop :=
  entry.flags.replicated = true → entry.flags.modified = false →
    ∃ old ∈ server.manager.entries, sameName old.name entry.name ∧ old.flags.replicated = true ∧
      old.flags.modified = false ∧ old.value types = entry.value types

theorem sameName_congr {name name' : Text} (h : sameName name name') (client : Client) :
    client.lastSent name = client.lastSent name' := by
  have htest : (fun pair : Text × Text => decide (sameName pair.1 name)) = fun pair =>
    decide (sameName pair.1 name') := by
    funext pair
    exact decide_eq_decide.mpr ⟨fun hpair => hpair.trans h, fun hpair => hpair.trans h.symm⟩
  rw [Client.lastSent, Client.lastSent, htest]

/-- What the clients know of the old entries, they know of the entries that take their place. -/
theorem InSync.of_known (h : server.InSync types) {manager : ConsoleVariableManager Kind Value}
    (hknown : ∀ entry ∈ manager.entries, server.Known types entry) : InSync types { server with manager } := by
  intro entry hmem hreplicated hmodified client hclient
  obtain ⟨old, hold, hname, holdReplicated, holdModified, hvalue⟩ :=
    hknown entry hmem hreplicated (by simpa using hmodified)
  rw [← hvalue, ← sameName_congr hname]
  exact h old hold holdReplicated (by simpa using holdModified) client hclient

theorem known_self {entry : Entry Kind Value} (hmem : entry ∈ server.manager.entries) : server.Known types entry :=
  fun hreplicated hmodified => ⟨entry, hmem, rfl, hreplicated, hmodified, rfl⟩

/-- An entry is changed in place. -/
theorem InSync.modify (h : server.InSync types) {name : Text} {f : Entry Kind Value → Entry Kind Value}
    (hname : ∀ entry, (f entry).name = entry.name)
    (hknown : server.Meets name fun entry => server.Known types (f entry)) :
    InSync types { server with manager := server.manager.modify name f hname } := by
  refine h.of_known fun entry hmem => ?_
  rcases server.manager.mem_modify hmem with ⟨hold, -⟩ | ⟨old, hold, hsame, rfl⟩
  · exact known_self hold
  · exact hknown old hold hsame

/-- An entry is registered. -/
theorem InSync.register (h : server.InSync types) {name : Text} {flags : Flags} {var : ConsoleVariableEntry Kind Value}
    (hknown : server.Known types { name, flags, var }) :
    InSync types { server with manager := server.manager.register name flags var } := by
  refine h.of_known fun entry hmem => ?_
  rcases server.manager.mem_register hmem with ⟨hold, -⟩ | rfl
  · exact known_self hold
  · exact hknown

/-- `SetValue` leaves an entry marked, or with the value that its flags and the text ask for. -/
theorem setValue_cases (types : Arguments Kind Value) (entry : Entry Kind Value) (value : Text) :
    match entry.var.accepts types entry.flags.readOnly value with
    | some newValue => (entry.setValue types value).value types = types.unparse newValue ∧
        (entry.setValue types value).flags.modified =
          (entry.flags.modified || !types.equal entry.var.curValue newValue)
    | none => entry.setValue types value = entry := by
  cases haccepts : entry.var.accepts types entry.flags.readOnly value with
  | none =>
    simp only [Entry.setValue, ConsoleVariableEntry.setValue, haccepts]
    obtain ⟨name, ⟨archive, modified, serverInfo, replicated, readOnly⟩, var⟩ := entry
    simp [Flags.mark, Flags.or]
  | some newValue => simp [Entry.setValue, Entry.value, ConsoleVariableEntry.setValue, haccepts]

@[simp]
theorem setValue_replicated (types : Arguments Kind Value) (entry : Entry Kind Value) (value : Text) :
    (entry.setValue types value).flags.replicated = entry.flags.replicated :=
  Flags.mark_replicated _ _

theorem setValue_modified {types : Arguments Kind Value} {entry : Entry Kind Value} (h : entry.flags.modified = true)
    (value : Text) : (entry.setValue types value).flags.modified = true := by
  rw [Entry.setValue, Flags.mark_modified, h, Bool.true_or]

/-- An allowed set command keeps what the clients know of the entry. -/
theorem known_setValue {entry : Entry Kind Value} (hmem : entry ∈ server.manager.entries) {addFlags : Flags}
    {value : Text} (hallowed : entry.SetAllowed types addFlags value) :
    server.Known types ((entry.setValue types value).addFlags addFlags) := by
  intro hreplicated hmodified
  simp only [Entry.addFlags, Flags.or_replicated, Flags.or_modified, setValue_replicated, Bool.or_eq_false_iff]
    at hreplicated hmodified
  have hold : entry.flags.modified = false := by
    by_contra hmarked
    rw [setValue_modified (by simpa using hmarked)] at hmodified
    cases hmodified.1
  rcases hallowed with hnot | hmarked | haccepts
  · rw [hnot] at hreplicated
    cases hreplicated
  · rw [hold] at hmarked
    cases hmarked
  · have hset := setValue_cases types entry value
    cases haccepted : entry.var.accepts types entry.flags.readOnly value with
    | none =>
      rw [haccepted] at hset haccepts
      have hsame : (entry.setValue types value).value types = entry.value types := congrArg (Entry.value types) hset
      exact ⟨entry, hmem, rfl, haccepts, hold, hsame.symm⟩
    | some newValue =>
      rw [haccepted] at hset haccepts
      obtain ⟨hvalue, hflag⟩ := hset
      rcases haccepts with hdiffers | ⟨hrepl, hsame⟩
      · rw [hflag, hdiffers, Bool.not_false, Bool.or_true] at hmodified
        cases hmodified.1
      · exact ⟨entry, hmem, rfl, hrepl, hold, (hvalue.trans hsame).symm⟩

theorem InSync.setCommand [DecidableEq Kind] (h : server.InSync types) {addFlags : Flags} {name value : Text}
    (hallowed : server.Meets name fun entry => entry.SetAllowed types addFlags value) :
    InSync types { server with manager := server.manager.setCommand types addFlags name value } := by
  rw [ConsoleVariableManager.setCommand]
  split
  · exact h.modify _ fun entry hmem hname => known_setValue hmem (hallowed entry hmem hname)
  · -- the new entry is marked from the start, and stays so
    let var := server.manager.createVariableEntry types name types.string types.empty
    have hcreated : InSync types
        { server with manager := server.manager.register name (({ modified := true } : Flags).or addFlags) var } :=
      h.register fun _ hmodified => by cases hmodified
    refine hcreated.modify _ fun entry hmem hname _ hmodified => ?_
    rcases server.manager.mem_register hmem with ⟨-, hother⟩ | rfl
    · exact absurd hname hother
    · rw [setValue_modified rfl] at hmodified
      cases hmodified

theorem InSync.registerConVar [DecidableEq Kind] (h : server.InSync types) {convar : ConVar Kind Value}
    (hallowed : server.RegisterAllowed types convar) : (server.register types convar).InSync types := by
  refine h.register fun hreplicated hmodified => ?_
  rcases hallowed with hnot | hmarked | ⟨old, hold, hname, holdReplicated, holdModified, hvalue⟩
  · rw [hnot] at hreplicated
    cases hreplicated
  · rw [hmarked] at hmodified
    cases hmodified
  · exact ⟨old, hold, hname, holdReplicated, holdModified, hvalue.symm⟩

/-- A client that connects gets every replicated variable. -/
theorem InSync.onConnectedClient (h : server.InSync types) (netId : Nat) :
    (server.onConnectedClient types netId).InSync types := by
  intro entry hmem hreplicated hmodified client hclient
  obtain ⟨old, hold, rfl⟩ := List.mem_map.mp hmem
  have hentry : (if old.flags.replicated then old.refreshed types else old).name = old.name ∧
      (if old.flags.replicated then old.refreshed types else old).flags = old.flags ∧
      (if old.flags.replicated then old.refreshed types else old).value types = old.value types := by
    split_ifs
    · exact ⟨rfl, rfl, old.var.getValue_refreshed types⟩
    · exact ⟨rfl, rfl, rfl⟩
  obtain ⟨hname, hflags, hvalue⟩ := hentry
  rw [hflags] at hreplicated hmodified
  rw [hname, hvalue]
  rcases List.mem_append.mp hclient with hothers | hnew
  · exact h old hold hreplicated hmodified client (List.mem_filter.mp hothers).1
  · rw [List.mem_singleton.mp hnew, lastSent_variableList hold, if_pos hreplicated]

theorem clients_onTick (types : Arguments Kind Value) (server : Server Kind Value) : (server.onTick types).clients =
    server.clients.map fun client => client.sendVariableList (server.variableList types Flags.pending) := by
  rw [onTick]
  dsimp only
  split_ifs with hempty
  · rw [List.isEmpty_iff.mp hempty]
    exact (List.map_id' _).symm
  · rfl

/-- A tick sends what was still to be sent. -/
theorem InSync.onTick (h : server.InSync types) : (server.onTick types).Converged types := by
  intro entry hmem hreplicated _ client hclient
  obtain ⟨old, hold, rfl⟩ := List.mem_map.mp hmem
  rw [clients_onTick] at hclient
  obtain ⟨before, hbefore, rfl⟩ := List.mem_map.mp hclient
  unfold sent at hreplicated ⊢
  split_ifs at hreplicated ⊢ with hpending
  · exact (lastSent_variableList hold Flags.pending before).trans
      ((if_pos hpending).trans (congrArg some (old.var.getValue_refreshed types).symm))
  · rw [lastSent_variableList hold, if_neg hpending]
    have hmodified : old.flags.modified = false := by simpa [Flags.pending, hreplicated] using hpending
    exact h old hold hreplicated (by simp [hmodified]) before hbefore

/-- With no client connected, nothing has to be known. -/
theorem inSync_of_noClients (h : server.clients = []) : server.InSync types := by
  intro entry _ _ _ client hclient
  rw [h] at hclient
  cases hclient

/-- Steps that put no client into the list leave it empty. -/
theorem step_noClients [DecidableEq Kind] (h : server.clients = []) (action : Action Kind Value) :
    (step types server action).InSync types := by
  cases action with
  | connect netId => exact (inSync_of_noClients h).onConnectedClient netId
  | drop netId => exact inSync_of_noClients (by rw [step, h]; rfl)
  | tick => exact inSync_of_noClients (by rw [step, clients_onTick, h, List.map_nil])
  | set command name value => exact inSync_of_noClients h
  | register convar => exact inSync_of_noClients h
  | constrain name minValue maxValue => exact inSync_of_noClients h
  | assign name value => exact inSync_of_noClients h

/-- An allowed step keeps the server in sync. -/
theorem InSync.step [DecidableEq Kind] (h : server.InSync types) {action : Action Kind Value}
    (hallowed : server.Allowed types action) : (step types server action).InSync types := by
  rcases hallowed with hnone | hallowed
  · exact step_noClients hnone action
  · cases action with
    | set command name value => exact h.setCommand hallowed
    | register convar => exact h.registerConVar hallowed
    | constrain name minValue maxValue =>
      refine h.modify _ fun entry hmem _ => ?_
      exact fun hreplicated hmodified => ⟨entry, hmem, rfl, hreplicated, hmodified, rfl⟩
    | assign name value =>
      refine h.modify _ fun entry hmem hname hreplicated hmodified => ?_
      rcases hallowed entry hmem hname with hnot | hmarked | hvalue
      · rw [hnot] at hreplicated
        cases hreplicated
      · rw [hmarked] at hmodified
        cases hmodified
      · exact ⟨entry, hmem, rfl, hreplicated, hmodified, hvalue.symm⟩
    | connect netId => exact h.onConnectedClient netId
    | drop netId =>
      intro entry hmem hreplicated hmodified client hclient
      exact h entry hmem hreplicated hmodified client (List.mem_filter.mp hclient).1
    | tick => exact fun entry hmem hreplicated _ => h.onTick entry hmem hreplicated rfl

/-- Runs of the server. -/
abbrev Runs [DecidableEq Kind] (types : Arguments Kind Value) (ok : Server Kind Value → Action Kind Value → Prop) :
    Server Kind Value → List (Action Kind Value) → Server Kind Value → Prop :=
  Run (fun server action => some (server.step types action)) ok

/-- In a run whose steps are all allowed, the variables have converged after every tick. The condition asks nothing
while no client is connected, since a client that connects gets all variables. -/
theorem tick_converged [DecidableEq Kind] {actions : List (Action Kind Value)}
    (h : Runs types (Allowed types) {} actions server) : (server.onTick types).Converged types := by
  have hsync : server.InSync types := by
    refine h.invariant (InSync types) (inSync_of_noClients rfl) ?_
    intro before action after hbefore hallowed htake
    cases htake
    exact hbefore.step hallowed
  exact hsync.onTick

section Strings

/-- Variables of type `std::string`, which take any text. -/
def strings : Arguments Unit Text where
  string := ()
  empty := []
  parse _ text := some text
  unparse text := text
  equal left right := left = right
  compare _ _ _ := true

/-- Ticks after which the variables have converged, in a run of every kind of step. The variable becomes replicated
together with a new value. -/
theorem tick_converged_strings : ∃ server : Server Unit Text,
    (∃ actions, Runs strings (Allowed strings) {} actions server) ∧ server.clients.length = 2 ∧
      (server.manager.entries.any fun entry => entry.flags.pending) = true ∧
        (server.onTick strings).Converged strings := by
  have hend : (exec (fun (server : Server Unit Text) action => if decide (server.Allowed strings action) then
      some (server.step strings action) else none) {}
      [.register {
          name := literal "sv_game", flags := {}, kind := ()
          defaultValue := literal "gta5", tracks := true },
        .set .seta (literal "sv_game") (literal "gta5"), .connect 1, .set .setr (literal "SV_game")
          (literal "rdr3"), .tick,
        .set .sets (literal "sv_game") (literal "rdr3"), .connect 2, .drop 3, .set .set (literal "sv_game")
          (literal "gta4"),
        .constrain (literal "sv_game") [] [], .assign (literal "sv_game") (literal "gta6"),
        .set .set (literal "motd") (literal "hi")]).any
      (fun server => server.clients.length = 2 ∧ (server.manager.entries.any fun entry => entry.flags.pending) =
        true) = true := by
    decide +kernel
  obtain ⟨server, hrun, hserver⟩ := exists_checked (fun s a hcheck => of_decide_eq_true hcheck) hend
  exact ⟨server, ⟨_, hrun⟩, (of_decide_eq_true hserver).1, (of_decide_eq_true hserver).2, tick_converged hrun⟩

/-- `setr` with the value that the variable has makes it replicated, and a client that is connected never gets it. -/
theorem setr_equal_unsent : ¬ ∀ (actions : List (Action Unit Text)) (server : Server Unit Text),
    Runs strings (fun _ _ => True) {} actions server → (server.onTick strings).Converged strings := by
  intro hall
  have hend : (exec (fun (server : Server Unit Text) action => some (server.step strings action)) {}
      [.register {
          name := literal "sv_game", flags := {}, kind := ()
          defaultValue := literal "gta5", tracks := false },
        .connect 1, .set .setr (literal "sv_game") (literal "gta5")]).any
      (fun server => ¬ (server.onTick strings).Converged strings) = true := by
    decide +kernel
  obtain ⟨server, hrun, hserver⟩ := exists_run hend
  exact of_decide_eq_true hserver (hall _ server hrun)

end Strings

end Server

end ConsoleVariables
