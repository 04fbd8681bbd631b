import Citizen.Lib.Bits

open Bits

namespace fx.ResourceFiles

abbrev Name := List Byte

/-- The value of a key, in a list of pairs. -/
def lookup {V : Type} (pairs : List (Name × V)) (name : Name) : Option V :=
  (pairs.find? fun pair => pair.1 = name).map Prod.snd

/-- What `GetEntry` records of a file: `fileId`, `mtime` and `size`. -/
structure Entry where
  fileId : List Byte
  mtime : Int
  size : Nat
  deriving DecidableEq

/-- A file with its contents. -/
structure File where
  entry : Entry
  data : List Byte
  deriving DecidableEq

/-- The files that can be opened. -/
abbrev Files := Name → Option File

/-- The constructor of `Entry`. -/
def Entry.default : Entry where
  fileId := List.replicate 16 0
  mtime := 0
  size := 2 ^ 64 - 1

/-- The entry of a file, if it can be opened. -/
def Entry.of (file : Option File) : Entry := (file.map File.entry).getD Entry.default

def getEntry (files : Files) (name : Name) : Entry := Entry.of (files name)

theorem distinct_nil : (([] : List (Name × Entry)).map Prod.fst).Nodup := List.nodup_nil

/-- `ResourceFileDatabase`, whose `m_entries` is a map. -/
structure Database where
  entries : List (Name × Entry) := []
  distinct : (entries.map Prod.fst).Nodup := by exact distinct_nil

namespace Database

variable (database : Database)

/-- The names that it has entries for. -/
def names : List Name := database.entries.map Prod.fst

/-- `emplace`, which keeps an entry that exists. -/
def emplace (name : Name) (entry : Entry) : Database :=
  if h : name ∈ database.entries.map Prod.fst then database
  else
    { entries := database.entries ++ [(name, entry)]
      distinct := by
        rw [List.map_append]
        exact List.nodup_append_comm.mp (List.nodup_cons.mpr ⟨h, database.distinct⟩) }

/-- `Snapshot`. -/
def snapshot (fileList : List Name) (files : Files) : Database :=
  fileList.foldl (fun database name => database.emplace name (getEntry files name)) {}

/-- `Check`. It holds if something has changed. -/
def check (fileList : List Name) (files : Files) : Bool :=
  let newSet := fileList.dedup
  let oldSet := database.names
  if oldSet.length ≠ newSet.length then true
  else if oldSet.any fun name => decide (name ∉ newSet) then true
  else database.entries.any fun entry => decide (getEntry files entry.1 ≠ entry.2)

/-- `Check` finds nothing exactly when the names are the same and each file still has its entry. -/
theorem check_eq_false_iff (fileList : List Name) (files : Files) : database.check fileList files = false ↔
    (∀ name, name ∈ database.names ↔ name ∈ fileList) ∧ ∀ entry ∈ database.entries,
      getEntry files entry.1 = entry.2 := by
  unfold check
  dsimp only
  constructor
  · intro h
    split_ifs at h with hlength hnames
    have hsubset : database.names ⊆ fileList.dedup := by
      intro name hmem
      by_contra hnot
      exact hnames (List.any_eq_true.mpr ⟨name, hmem, by simpa using hnot⟩)
    have hperm : database.names.Perm fileList.dedup := by
      apply (database.distinct.subperm hsubset).perm_of_length_le
      exact (not_not.mp hlength).ge
    refine ⟨fun name => hperm.mem_iff.trans List.mem_dedup, fun entry hmem => ?_⟩
    have hentry := List.any_eq_false.mp h entry hmem
    simpa using hentry
  · rintro ⟨hnames, hentries⟩
    have hperm : database.names.Perm fileList.dedup :=
      (List.perm_ext_iff_of_nodup database.distinct (List.nodup_dedup _)).mpr fun name =>
        (hnames name).trans List.mem_dedup.symm
    rw [if_neg (not_not_intro hperm.length_eq), if_neg, List.any_eq_false]
    · intro entry hmem
      simpa using hentries entry hmem
    · rw [List.any_eq_true]
      rintro ⟨name, hmem, hnot⟩
      exact of_decide_eq_true hnot (hperm.mem_iff.mp hmem)

theorem names_emplace (name : Name) (entry : Entry) (other : Name) :
    other ∈ (database.emplace name entry).names ↔ other ∈ database.names ∨ other = name := by
  unfold emplace names
  split_ifs with h
  · constructor
    · exact .inl
    · rintro (hold | rfl)
      · exact hold
      · exact h
  · rw [List.map_append, List.mem_append, List.map_singleton, List.mem_singleton]

theorem mem_snapshot (fileList : List Name) (files : Files) :
    (∀ name, name ∈ (snapshot fileList files).names ↔ name ∈ fileList) ∧
      ∀ entry ∈ (snapshot fileList files).entries, entry.2 = getEntry files entry.1 := by
  have hfold : ∀ database : Database, (∀ entry ∈ database.entries, entry.2 = getEntry files entry.1) →
      let result := fileList.foldl (fun database name => database.emplace name (getEntry files name)) database
      (∀ name, name ∈ result.names ↔ name ∈ database.names ∨ name ∈ fileList) ∧
        ∀ entry ∈ result.entries, entry.2 = getEntry files entry.1 := by
    induction fileList with
    | nil => exact fun database h => ⟨fun name => by simp, h⟩
    | cons first fileList ih =>
      intro database hentries
      have hfirst : ∀ entry ∈ (database.emplace first (getEntry files first)).entries,
        entry.2 = getEntry files entry.1 := by
        unfold emplace
        split_ifs
        · exact hentries
        · intro entry hmem
          rcases List.mem_append.mp hmem with hold | hnew
          · exact hentries entry hold
          · rw [List.mem_singleton.mp hnew]
      obtain ⟨hnames, hresult⟩ := ih _ hfirst
      refine ⟨fun name => ?_, hresult⟩
      rw [List.foldl_cons, hnames, names_emplace, List.mem_cons, or_assoc]
  obtain ⟨hnames, hentries⟩ := hfold {} (by simp)
  refine ⟨fun name => (hnames name).trans ?_, hentries⟩
  simp [names]

/-- After a snapshot, `Check` finds nothing exactly when the set of names and the recorded states of the files are
the same. -/
theorem check_snapshot_iff (fileList fileList' : List Name) (files files' : Files) :
    (snapshot fileList files).check fileList' files' = false ↔
      (∀ name, name ∈ fileList ↔ name ∈ fileList') ∧ ∀ name ∈ fileList,
        getEntry files' name = getEntry files name := by
  obtain ⟨hnames, hentries⟩ := mem_snapshot fileList files
  rw [check_eq_false_iff]
  refine and_congr (forall_congr' fun name => by rw [hnames]) ?_
  constructor
  · intro h name hmem
    obtain ⟨entry, hentry, rfl⟩ := List.mem_map.mp ((hnames name).mpr hmem)
    rw [h entry hentry, hentries entry hentry]
  · intro h entry hmem
    rw [hentries entry hmem]
    exact h entry.1 ((hnames entry.1).mp (List.mem_map_of_mem hmem))

end Database

end fx.ResourceFiles
