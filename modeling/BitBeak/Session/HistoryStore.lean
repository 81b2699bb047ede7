import BitBeak.Http.Words
import BitBeak.Lib.Files
import BitBeak.Session.HistoryReplay
import Mathlib.Data.List.Sort
import Mathlib.Data.String.Basic

/-! The files of the history. The directory is part of the state, and every operation on it
succeeds. -/
namespace BitBeak
open Http

/-- A response that came in at a time, and the request it answers. -/
structure Exchange where
  now : Nat
  totalMs : UInt64
  spec : HttpRequestSpec
  resp : Http.HttpResponse

def Exchange.entry (x : Exchange) : HistoryEntry := historyEntry x.now x.totalMs x.spec x.resp

/-- The texts of the files, under their names. -/
abbrev HistoryDir := List (String × String)

/-- The JSON crate on entries, and the order in which the system lists a directory. -/
structure HistoryFiles where
  toText : HistoryEntry → String
  fromText : String → Option HistoryEntry
  readDir : HistoryDir → HistoryDir

def historyFile (id : String) : String := id ++ ".json"

/-- A file with the extension, and a name in front of it. -/
def isJsonFile (name : String) : Bool := hasSuffix name ".json" && name ≠ ".json"

/-- The files whose names are last in order are kept. -/
def prune (keep : Nat) (dir : HistoryDir) : HistoryDir :=
  let entries := ((Files.names dir).filter isJsonFile).mergeSort fun a b => decide (a ≤ b)
  if keep < entries.length then
    dir.filter fun f => f.1 ∉ entries.take (entries.length - keep)
  else dir

namespace HistoryFiles
variable (files : HistoryFiles)

def appendHistory (dir : HistoryDir) (x : Exchange) : HistoryDir :=
  prune 200 (Files.write dir (historyFile x.entry.id, files.toText x.entry))

def listHistory (limit : Nat) (dir : HistoryDir) : List HistoryEntry :=
  let entries := (files.readDir dir).filterMap fun f => files.fromText f.2
  (entries.mergeSort fun a b => decide (b.atUnix ≤ a.atUnix)).take limit

def loadHistoryEntry (dir : HistoryDir) (id : String) : Option HistoryEntry :=
  (Files.read (historyFile id) dir).bind files.fromText

/-- The history of exchanges, from an empty one on. -/
def history (xs : List Exchange) : HistoryDir := xs.foldl files.appendHistory []

end HistoryFiles

/- Up to 200 files, nothing is pruned. -/

theorem prune_small {keep : Nat} {dir : HistoryDir} (few : dir.length ≤ keep) :
    prune keep dir = dir := by
  have entries : (((Files.names dir).filter isJsonFile).mergeSort fun a b => decide (a ≤ b)).length ≤
      dir.length := by
    rw [List.length_mergeSort]
    have kept := List.length_filter_le isJsonFile (Files.names dir)
    simpa [Files.names] using kept
  rw [prune, if_neg (by omega)]

def HistoryFiles.fileOf (files : HistoryFiles) (x : Exchange) : String × String :=
  (historyFile x.entry.id, files.toText x.entry)

theorem foldl_appendHistory (files : HistoryFiles) {xs : List Exchange} {dir : HistoryDir}
    (few : dir.length + xs.length ≤ 200) :
    xs.foldl files.appendHistory dir = Files.writeAll dir (xs.map files.fileOf) := by
  induction xs generalizing dir with
  | nil => rfl
  | cons x xs ih =>
    rw [List.length_cons] at few
    have size := Files.length_write_le dir (files.fileOf x)
    have one : files.appendHistory dir x = Files.write dir (files.fileOf x) :=
      prune_small (show (Files.write dir (files.fileOf x)).length ≤ 200 by omega)
    rw [List.foldl_cons, one, ih (by omega)]
    rfl

/- The id of an entry is its time and its status. -/

theorem toString_injective {m n : Nat} (same : toString m = toString n) : m = n := by
  have digits := congrArg String.toList same
  rw [toList_toString, toList_toString] at digits
  have values := congrArg (fun d => Nat.ofDigitChars 10 d 0) digits
  simpa [Nat.ofDigitChars_toDigits] using values

theorem historyFile_injective {x y : Exchange}
    (same : historyFile x.entry.id = historyFile y.entry.id) :
    (x.now, x.resp.status) = (y.now, y.resp.status) := by
  have outside (n : Nat) : '-' ∉ (toString n).toList := outside_toString rfl
  have parts (z : Exchange) : splitOnce '-' (historyFile z.entry.id) =
      some (toString z.now, toString z.resp.status.toNat ++ ".json") := by
    have shape : historyFile z.entry.id =
        toString z.now ++ String.ofList ['-'] ++ (toString z.resp.status.toNat ++ ".json") := by
      simp only [historyFile, Exchange.entry, historyEntry, String.append_assoc]
      rfl
    rw [shape, splitOnce_append (outside z.now)]
  have both := (parts x).symm.trans ((congrArg (splitOnce '-') same).trans (parts y))
  simp only [Option.some.injEq, Prod.mk.injEq, String.append_left_inj] at both
  have status := UInt16.toNat_inj.mp (toString_injective both.2)
  rw [toString_injective both.1, status]

theorem historyFile_congr {x y : Exchange} (same : (x.now, x.resp.status) = (y.now, y.resp.status)) :
    historyFile x.entry.id = historyFile y.entry.id := by
  obtain ⟨times, statuses⟩ := Prod.mk.inj same
  simp only [Exchange.entry, historyEntry, times, statuses]

/-- The names of the files differ as the times and statuses do. -/
theorem nodup_names_iff (files : HistoryFiles) (xs : List Exchange) :
    (Files.names (xs.map files.fileOf)).Nodup ↔
      (xs.map fun x => (x.now, x.resp.status)).Nodup := by
  simp only [Files.names, List.map_map, List.Nodup, List.pairwise_map]
  constructor
  · exact List.Pairwise.imp fun differ same => differ (historyFile_congr same)
  · exact List.Pairwise.imp fun differ same => differ (historyFile_injective same)

section
variable {files : HistoryFiles} {xs : List Exchange}

theorem history_files (few : xs.length ≤ 200) :
    files.history xs = Files.writeAll [] (xs.map files.fileOf) :=
  foldl_appendHistory files (by simpa using few)

/-- An entry that is written is read as it was. -/
def HistoryFiles.Restores (files : HistoryFiles) (xs : List Exchange) : Prop :=
  ∀ x ∈ xs, files.fromText (files.toText x.entry) = some x.entry

theorem listHistory_perm (listing : ∀ dir, (files.readDir dir).Perm dir)
    (restores : files.Restores xs) (few : xs.length ≤ 200) :
    (files.listHistory 200 (xs.map files.fileOf)).Perm (xs.map Exchange.entry) := by
  have entries : (xs.map files.fileOf).filterMap (fun f => files.fromText f.2) =
      xs.map Exchange.entry := by
    rw [List.filterMap_map, ← List.filterMap_eq_map]
    exact List.filterMap_congr fun x inside => restores x inside
  have read : ((files.readDir (xs.map files.fileOf)).filterMap fun f => files.fromText f.2).Perm
      (xs.map Exchange.entry) := by
    rw [← entries]
    exact (listing _).filterMap _
  have sorted := (List.mergeSort_perm _ fun a b : HistoryEntry => decide (b.atUnix ≤ a.atUnix)).trans read
  have size := sorted.length_eq
  rw [List.length_map] at size
  rw [HistoryFiles.listHistory, List.take_of_length_le (by omega)]
  exact sorted

theorem length_listHistory (listing : ∀ dir, (files.readDir dir).Perm dir) (limit : Nat)
    (dir : HistoryDir) : (files.listHistory limit dir).length ≤ dir.length := by
  calc (files.listHistory limit dir).length
      ≤ (((files.readDir dir).filterMap fun f => files.fromText f.2).mergeSort
          fun a b => decide (b.atUnix ≤ a.atUnix)).length := (List.take_sublist _ _).length_le
    _ = ((files.readDir dir).filterMap fun f => files.fromText f.2).length := List.length_mergeSort _
    _ ≤ (files.readDir dir).length := List.length_filterMap_le _ _
    _ = dir.length := (listing dir).length_eq

/-- Every exchange is kept exactly when no two have the same second and the same status. -/
theorem history_keeps_iff (listing : ∀ dir, (files.readDir dir).Perm dir)
    (restores : files.Restores xs) (few : xs.length ≤ 200) :
    ((files.listHistory 200 (files.history xs)).Perm (xs.map Exchange.entry) ∧
      ∀ x ∈ xs, files.loadHistoryEntry (files.history xs) x.entry.id = some x.entry) ↔
    (xs.map fun x => (x.now, x.resp.status)).Nodup := by
  rw [history_files few, ← nodup_names_iff files]
  constructor
  · rintro ⟨kept, -⟩
    have entries := kept.length_eq
    have listed := length_listHistory listing 200 (Files.writeAll [] (xs.map files.fileOf))
    refine Files.nodup_of_length ?_
    rw [List.length_map] at entries ⊢
    omega
  · intro distinct
    rw [Files.writeAll_nodup distinct]
    refine ⟨listHistory_perm listing restores few, ?_⟩
    intro x inside
    have file := Files.read_of_mem distinct (List.mem_map_of_mem (f := files.fileOf) inside)
    rw [HistoryFiles.loadHistoryEntry, ← restores x inside, show
      Files.read (historyFile x.entry.id) (xs.map files.fileOf) = some (files.toText x.entry) from file]
    rfl

end

/-- The document of an entry without headers, and without a character that JSON escapes. -/
def plainJson (e : HistoryEntry) : String :=
  "\x7b\n  \"id\": \"" ++ e.id ++ "\",\n  \"at_unix\": " ++ toString e.atUnix ++
    ",\n  \"method\": \"" ++ e.method ++ "\",\n  \"url\": \"" ++ e.url ++
    "\",\n  \"status\": " ++ toString e.status ++ ",\n  \"total_ms\": " ++ toString e.totalMs ++
    ",\n  \"body_preview\": \"" ++ e.bodyPreview ++ "\",\n  \"request_headers\": [],\n" ++
    "  \"request_body\": \"" ++ e.requestBody ++ "\"\n\x7d"

/-- The documents of these exchanges are read, and files are listed as they were written. -/
def plainFiles (xs : List Exchange) : HistoryFiles where
  toText := plainJson
  fromText text := (xs.map Exchange.entry).find? fun e => plainJson e = text
  readDir dir := dir

def sentAt (now : Nat) (body : String) : Exchange :=
  ⟨now, 5, { textRequest body.toList with headers := [] }, okResponse⟩

theorem seconds_apart_kept :
    ((plainFiles [sentAt 7 "a", sentAt 8 "b"]).listHistory 200
        ((plainFiles [sentAt 7 "a", sentAt 8 "b"]).history [sentAt 7 "a", sentAt 8 "b"])).Perm
      ([sentAt 7 "a", sentAt 8 "b"].map Exchange.entry) ∧
    ∀ x ∈ [sentAt 7 "a", sentAt 8 "b"],
      (plainFiles [sentAt 7 "a", sentAt 8 "b"]).loadHistoryEntry
        ((plainFiles [sentAt 7 "a", sentAt 8 "b"]).history [sentAt 7 "a", sentAt 8 "b"]) x.entry.id =
        some x.entry :=
  (history_keeps_iff (fun _ => List.Perm.refl _) (by unfold HistoryFiles.Restores; decide +kernel)
    (by simp)).mpr (by simp [sentAt])

/-- The second request of a second takes the place of the first. -/
theorem same_second_lost :
    ((plainFiles [sentAt 7 "a", sentAt 7 "b"]).history [sentAt 7 "a", sentAt 7 "b"]).length = 1 ∧
    (plainFiles [sentAt 7 "a", sentAt 7 "b"]).loadHistoryEntry
      ((plainFiles [sentAt 7 "a", sentAt 7 "b"]).history [sentAt 7 "a", sentAt 7 "b"])
      (sentAt 7 "a").entry.id = some (sentAt 7 "b").entry ∧
    (sentAt 7 "a").entry ≠ (sentAt 7 "b").entry := by
  have files : (plainFiles [sentAt 7 "a", sentAt 7 "b"]).history [sentAt 7 "a", sentAt 7 "b"] =
      [(plainFiles []).fileOf (sentAt 7 "b")] := by
    rw [history_files (by simp)]
    decide +kernel
  rw [files]
  decide +kernel

end BitBeak
