import BitBeak.Collections
import BitBeak.Lib.Files

/-! The files of the collections. Every write succeeds. -/
namespace BitBeak.Collections

/-- The file name of a collection: what is no letter, digit, hyphen or underscore is replaced. -/
def safeName (name : String) : String :=
  String.ofList (name.toList.map fun c => if c.isAlphanum || c == '-' || c == '_' then c else '_')

/-- Files with their texts, under their whole paths. -/
abbrev SavedFiles := List (String × String)

/-- The directory of the collections, the directories of the system, what a text that is given as
a path leads to, and the TOML crate. No directory has the path of a collection. -/
structure CollectionStore where
  dir : String
  isDir : String → Bool
  resolve : String → String
  toText : Collection → String
  fromText : String → Option Collection
  free : ∀ name, isDir (dir ++ "/" ++ safeName name ++ ".toml") = false

inductive LoadError where
  | read (path : String)
  | parse
  deriving DecidableEq, Repr

def LoadError.text : LoadError → String
  | .read path => "read " ++ path
  | .parse => "parse collection toml"

namespace CollectionStore
variable (store : CollectionStore)

def collectionPath (name : String) : String := store.dir ++ "/" ++ safeName name ++ ".toml"

def saveCollection (files : SavedFiles) (col : Collection) : SavedFiles :=
  Files.write files (store.collectionPath col.name, store.toText col)

def pathExists (files : SavedFiles) (path : String) : Bool :=
  store.isDir path || decide (path ∈ Files.names files)

def readToString (files : SavedFiles) (path : String) : Option String :=
  if store.isDir path then none else Files.read path files

def loadCollection (files : SavedFiles) (nameOrPath : String) : Except LoadError Collection :=
  let path :=
    if store.pathExists files (store.resolve nameOrPath) then store.resolve nameOrPath
    else store.collectionPath nameOrPath
  match store.readToString files path with
  | none => .error (.read path)
  | some text =>
    match store.fromText text with
    | none => .error .parse
    | some col => .ok col

def saveAll (files : SavedFiles) (cols : List Collection) : SavedFiles :=
  cols.foldl store.saveCollection files

end CollectionStore

/-- A saved collection is read as it was. -/
def CollectionStore.Restores (store : CollectionStore) (cols : List Collection) : Prop :=
  ∀ col ∈ cols, store.fromText (store.toText col) = some col

section
variable {store : CollectionStore} {before : SavedFiles} {cols : List Collection}

def CollectionStore.fileOf (store : CollectionStore) (col : Collection) : String × String :=
  (store.collectionPath col.name, store.toText col)

theorem saveAll_writes (before : SavedFiles) (cols : List Collection) :
    store.saveAll before cols = Files.writeAll before (cols.map store.fileOf) := by
  rw [CollectionStore.saveAll, Files.writeAll, List.foldl_map]
  rfl

theorem collectionPath_inj {a b : String} :
    store.collectionPath a = store.collectionPath b ↔ safeName a = safeName b := by
  simp [CollectionStore.collectionPath]

theorem isDir_collectionPath (name : String) : store.isDir (store.collectionPath name) = false :=
  store.free name

/-- A collection whose file no other one has keeps it. -/
theorem read_own (names : (cols.map Collection.name).Nodup) {col : Collection} (inside : col ∈ cols)
    (own : ∀ other ∈ cols, safeName other.name = safeName col.name → other = col) :
    Files.read (store.collectionPath col.name) (store.saveAll before cols) =
      some (store.toText col) := by
  obtain ⟨front, behind, rfl⟩ := List.append_of_mem inside
  have later : store.collectionPath col.name ∉ Files.names (behind.map store.fileOf) := by
    intro taken
    obtain ⟨f, there, same⟩ := List.mem_map.mp taken
    obtain ⟨other, listed, rfl⟩ := List.mem_map.mp there
    obtain rfl := own other (by simp [listed]) (collectionPath_inj.mp same)
    simp only [List.map_append, List.map_cons, List.nodup_append, List.nodup_cons] at names
    exact names.2.1.1 (List.mem_map_of_mem listed)
  rw [saveAll_writes, List.map_append, List.map_cons]
  exact Files.read_writeAll_last later before

/-- What is neither the file of a collection nor a directory is as it was. -/
theorem read_elsewhere {path : String}
    (elsewhere : ∀ other ∈ cols, path ≠ store.collectionPath other.name) :
    Files.read path (store.saveAll before cols) = Files.read path before := by
  rw [saveAll_writes]
  refine Files.read_writeAll_other ?_ before
  intro taken
  obtain ⟨f, there, rfl⟩ := List.mem_map.mp taken
  obtain ⟨other, listed, rfl⟩ := List.mem_map.mp there
  exact elsewhere other listed rfl

theorem loadCollection_path {files : SavedFiles} {name path : String} {col : Collection}
    (leads : (if store.pathExists files (store.resolve name) then store.resolve name
      else store.collectionPath name) = path) :
    store.loadCollection files name = .ok col ↔
      (store.readToString files path).bind store.fromText = some col := by
  rw [CollectionStore.loadCollection]
  simp only [leads]
  cases store.readToString files path with
  | none => simp
  | some text => cases parsed : store.fromText text <;> simp [parsed]

/-- A name that leads to something is taken as a path. -/
theorem loadCollection_resolved {files : SavedFiles} {name : String} {col : Collection}
    (there : store.pathExists files (store.resolve name) = true) :
    store.loadCollection files name = .ok col ↔
      (store.readToString files (store.resolve name)).bind store.fromText = some col :=
  loadCollection_path (if_pos there)

theorem pathExists_of_read {files : SavedFiles} {path text : String}
    (read : store.readToString files path = some text) : store.pathExists files path = true := by
  unfold CollectionStore.readToString at read
  split at read
  · cases read
  · simp [CollectionStore.pathExists, Files.mem_names_iff.mpr ⟨text, read⟩]

theorem not_isDir_of_loaded {files : SavedFiles} {name : String} {col : Collection}
    (loaded : store.loadCollection files name = .ok col) :
    store.isDir (store.resolve name) = false := by
  cases directory : store.isDir (store.resolve name) with
  | false => rfl
  | true =>
    have there : store.pathExists files (store.resolve name) = true := by
      simp [CollectionStore.pathExists, directory]
    have read := (loadCollection_resolved there).mp loaded
    simp [CollectionStore.readToString, directory] at read

/-- No other collection has the file of the collection, and its name leads to no other file. -/
def CollectionStore.Apart (store : CollectionStore) (before : SavedFiles) (cols : List Collection)
    (col : Collection) : Prop :=
  (∀ other ∈ cols, safeName other.name = safeName col.name → other = col) ∧
  store.isDir (store.resolve col.name) = false ∧
  (∀ other ∈ cols, store.resolve col.name = store.collectionPath other.name → other = col) ∧
  ((∀ other ∈ cols, store.resolve col.name ≠ store.collectionPath other.name) →
    ∀ text, Files.read (store.resolve col.name) before = some text →
      store.fromText text = some col)

/-- Every collection keeps its file and is loaded by its name if and only if they are apart. -/
theorem collections_apart_iff (restores : store.Restores cols)
    (names : (cols.map Collection.name).Nodup) :
    (∀ col ∈ cols,
      (store.readToString (store.saveAll before cols) (store.collectionPath col.name)).bind
        store.fromText = some col ∧
      store.loadCollection (store.saveAll before cols) col.name = .ok col) ↔
    ∀ col ∈ cols, store.Apart before cols col := by
  constructor
  · intro kept col inside
    obtain ⟨own, loaded⟩ := kept col inside
    have plain := not_isDir_of_loaded loaded
    refine ⟨?_, plain, ?_, ?_⟩
    · intro other listed same
      have theirs := (kept other listed).1
      rw [collectionPath_inj.mpr same, own] at theirs
      exact (Option.some.inj theirs).symm
    · intro other listed leads
      have theirs := (kept other listed).1
      obtain ⟨text, read, -⟩ := Option.bind_eq_some_iff.mp theirs
      rw [← leads] at theirs read
      have mine := (loadCollection_resolved (pathExists_of_read read)).mp loaded
      exact Option.some.inj (theirs.symm.trans mine)
    · intro elsewhere text held
      have same : Files.read (store.resolve col.name) (store.saveAll before cols) = some text :=
        (read_elsewhere elsewhere).trans held
      have read : store.readToString (store.saveAll before cols) (store.resolve col.name) =
          some text := by simp [CollectionStore.readToString, plain, same]
      have mine := (loadCollection_resolved (pathExists_of_read read)).mp loaded
      rwa [read] at mine
  · intro apart col inside
    obtain ⟨own, plain, unlike, foreign⟩ := apart col inside
    have file : Files.read (store.collectionPath col.name) (store.saveAll before cols) =
        some (store.toText col) := read_own names inside own
    have here : (store.readToString (store.saveAll before cols)
        (store.collectionPath col.name)).bind store.fromText = some col := by
      simp [CollectionStore.readToString, isDir_collectionPath, file, restores col inside]
    refine ⟨here, ?_⟩
    rw [loadCollection_path rfl]
    split
    · next there =>
      -- the name leads to a file: that of the collection, or one that holds it as well
      by_cases same : store.resolve col.name = store.collectionPath col.name
      · rw [same]
        exact here
      · have elsewhere : ∀ other ∈ cols, store.resolve col.name ≠ store.collectionPath other.name := by
          intro other listed leads
          rw [unlike other listed leads] at leads
          exact same leads
        have text : Files.read (store.resolve col.name) (store.saveAll before cols) =
            Files.read (store.resolve col.name) before := read_elsewhere elsewhere
        rw [CollectionStore.pathExists, plain, Bool.false_or, decide_eq_true_eq, Files.mem_names_iff,
          text] at there
        obtain ⟨found, held⟩ := there
        simp [CollectionStore.readToString, plain, text, held, foreign elsewhere found held]
    · exact here

end

/-- The document of a collection that has a name only, without a character that TOML escapes. -/
def plainToml (col : Collection) : String :=
  "name = \"" ++ col.name ++ "\"\nrequests = []\nenvironments = []\n"

def named (name : String) : Collection := { name := name }

/-- The directory of the collections is the only one; other names lead to another place. -/
def plainStore (cols : List Collection) : CollectionStore where
  dir := "/c"
  isDir path := path = "/c"
  resolve name := "/w/" ++ name
  toText := plainToml
  fromText text := cols.find? fun col => plainToml col = text
  free name := by
    rw [decide_eq_false_iff_not, ← String.toList_inj]
    simp

theorem plain_names_apart :
    ((plainStore [named "a", named "b"]).readToString
        ((plainStore [named "a", named "b"]).saveAll [] [named "a", named "b"])
        ((plainStore [named "a", named "b"]).collectionPath "a")).bind
      (plainStore [named "a", named "b"]).fromText = some (named "a") ∧
    (plainStore [named "a", named "b"]).loadCollection
      ((plainStore [named "a", named "b"]).saveAll [] [named "a", named "b"]) "a" =
      .ok (named "a") := by
  have restores : (plainStore [named "a", named "b"]).Restores [named "a", named "b"] := by
    unfold CollectionStore.Restores
    decide +kernel
  have files : ∀ col ∈ [named "a", named "b"],
      (∀ other ∈ [named "a", named "b"], safeName other.name = safeName col.name → other = col) ∧
      (plainStore [named "a", named "b"]).isDir
        ((plainStore [named "a", named "b"]).resolve col.name) = false ∧
      ∀ other ∈ [named "a", named "b"], (plainStore [named "a", named "b"]).resolve col.name =
        (plainStore [named "a", named "b"]).collectionPath other.name → other = col := by
    decide +kernel
  refine (collections_apart_iff restores (by simp [named])).mpr ?_ (named "a") (by simp)
  intro col inside
  obtain ⟨own, plain, unlike⟩ := files col inside
  exact ⟨own, plain, unlike, fun _ text held => by cases held⟩

/-- A blank and an underscore are the same in the name of the file. -/
theorem blank_name_overwritten :
    (plainStore [named "a b", named "a_b"]).loadCollection
      ((plainStore [named "a b", named "a_b"]).saveAll [] [named "a b", named "a_b"]) "a b" =
      .ok (named "a_b") ∧ named "a b" ≠ named "a_b" := by
  decide +kernel

end BitBeak.Collections
