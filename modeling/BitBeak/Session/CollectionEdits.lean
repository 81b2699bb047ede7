import BitBeak.Session.HttpSession

/-! The edits of the collection that is shown: a request is deleted, appended or overwritten, and the
collection is saved. -/
namespace BitBeak
open Collections

inductive FlashKind where
  | ok
  | err
  deriving DecidableEq, Repr

/-- What the keys of the collections work on. `session` is the active session, if it is one of
HTTP. -/
structure CollectionsPane where
  session : Option HttpSession
  collection : Option Collection
  collectionNames : List String
  collectionShowRequests : Bool
  requestCursor : Nat
  statusFlash : String
  flashKind : FlashKind

/-- What the disk answers: where a collection was saved, or why not, and the names that are listed
after it. -/
structure CollectionDisk where
  save : Collection → Except String String
  list : Option (List String)

namespace CollectionsPane

def flashOk (ws : CollectionsPane) (msg : String) : CollectionsPane :=
  { ws with statusFlash := msg, flashKind := .ok }

def flashErr (ws : CollectionsPane) (msg : String) : CollectionsPane :=
  { ws with statusFlash := msg, flashKind := .err }

/-- The key `d`. -/
def deleteRequest (disk : CollectionDisk) (ws : CollectionsPane) : CollectionsPane :=
  if ws.collectionShowRequests then
    match ws.collection with
    | none => ws
    | some col =>
      match col.requests[ws.requestCursor]? with
      | none => ws
      | some req =>
        let col := { col with requests := col.requests.eraseIdx ws.requestCursor }
        let cursor :=
          if 0 < ws.requestCursor ∧ col.requests.length ≤ ws.requestCursor then ws.requestCursor - 1
          else ws.requestCursor
        let ws := { ws with collection := some col, requestCursor := cursor }
        match disk.save col with
        | .ok _ => ws.flashOk ("deleted " ++ req.name)
        | .error e => ws.flashErr e
  else ws

def saveHttpToCollection (disk : CollectionDisk) (ws : CollectionsPane) (append : Bool) :
    CollectionsPane :=
  match ws.session with
  | none => ws.flashErr "need HTTP session to save"
  | some s =>
    let saved := s.toSaved (s.method.textOf ++ " " ++ s.url.textOf)
    let col := ws.collection.getD { name := "default" }
    let (col, cursor) :=
      if append ∨ col.requests = [] ∨ ws.collectionShowRequests = false then
        let col := { col with requests := col.requests ++ [saved] }
        (col, col.requests.length - 1)
      else
        match col.requests[ws.requestCursor]? with
        | some old =>
          ({ col with requests := col.requests.set ws.requestCursor { saved with name := old.name } },
            ws.requestCursor)
        | none => ({ col with requests := col.requests ++ [saved] }, ws.requestCursor)
    -- the cursor is set before the collection is saved, the collection after it
    let ws := { ws with requestCursor := cursor }
    match disk.save col with
    | .ok path =>
      let ws := ws.flashOk ((if append then "appended" else "saved") ++ " " ++ path)
      { ws with
        collection := some col
        collectionNames := disk.list.getD []
        collectionShowRequests := true }
    | .error e => ws.flashErr e

/-- Requests are shown, and there are some. -/
def showsSome (ws : CollectionsPane) : Bool :=
  ws.collectionShowRequests && ((ws.collection.map fun col => !col.requests.isEmpty).getD false)

end CollectionsPane

/-- The keys `d`, `S` and `s`. -/
inductive CollectionEdit where
  | delete
  | append
  | overwrite
  deriving DecidableEq, Repr

def CollectionsPane.edit (disk : CollectionDisk) (ws : CollectionsPane) :
    CollectionEdit → CollectionsPane
  | .delete => ws.deleteRequest disk
  | .append => ws.saveHttpToCollection disk true
  | .overwrite => ws.saveHttpToCollection disk (!ws.showsSome)

/-- Nothing is saved. -/
def failing (reason : Collection → String) (list : Option (List String)) : CollectionDisk where
  save col := .error (reason col)
  list := list

namespace CollectionsPane

/-- A request is shown under the cursor. -/
def UnderCursor (ws : CollectionsPane) : Prop :=
  ws.collectionShowRequests = true ∧
    ∃ col, ws.collection = some col ∧ ws.requestCursor < col.requests.length

/-- No request can be appended, or the cursor is already where it would go to. -/
def AtEnd (ws : CollectionsPane) : Prop :=
  ws.session = none ∨ ws.requestCursor = ((ws.collection.map fun col => col.requests.length).getD 0)

/-- The states in which an edit leaves memory alone when it cannot be saved. -/
def Safe (ws : CollectionsPane) : CollectionEdit → Prop
  | .delete => ¬ ws.UnderCursor
  | .append => ws.AtEnd
  | .overwrite => ws.showsSome = true ∨ ws.AtEnd

section
variable (ws : CollectionsPane) (reason : Collection → String) (list : Option (List String))

/-- The request under the cursor is gone from memory, too. -/
theorem deleteRequest_failing_iff :
    ((ws.deleteRequest (failing reason list)).collection = ws.collection ∧
      (ws.deleteRequest (failing reason list)).requestCursor = ws.requestCursor) ↔
      ¬ ws.UnderCursor := by
  cases shown : ws.collectionShowRequests with
  | false => simp [deleteRequest, UnderCursor, shown]
  | true =>
    cases loaded : ws.collection with
    | none => simp [deleteRequest, UnderCursor, shown, loaded]
    | some col =>
      cases here : col.requests[ws.requestCursor]? with
      | none =>
        have past := List.getElem?_eq_none_iff.mp here
        simp [deleteRequest, UnderCursor, shown, loaded, past]
      | some req =>
        obtain ⟨inside, -⟩ := List.getElem?_eq_some_iff.mp here
        have shorter : ({ col with requests := col.requests.eraseIdx ws.requestCursor } : Collection) ≠
            col := by
          intro same
          have lengths := congrArg (fun c : Collection => c.requests.length) same
          simp only [List.length_eraseIdx, inside, if_true] at lengths
          omega
        have under : ws.UnderCursor := ⟨shown, col, loaded, inside⟩
        simp [deleteRequest, shown, loaded, here, failing, flashErr, under, shorter]

/-- The cursor goes to the place of a request that was not saved. -/
theorem append_failing_iff :
    ((ws.saveHttpToCollection (failing reason list) true).collection = ws.collection ∧
      (ws.saveHttpToCollection (failing reason list) true).requestCursor = ws.requestCursor) ↔
      ws.AtEnd := by
  cases active : ws.session with
  | none => simp [saveHttpToCollection, AtEnd, active, flashErr]
  | some s =>
    have turned (n : Nat) : n = ws.requestCursor ↔ ws.requestCursor = n := eq_comm
    cases loaded : ws.collection <;>
      simp [saveHttpToCollection, AtEnd, active, loaded, failing, flashErr, turned]

theorem overwrite_failing (shows : ws.showsSome = true) :
    (ws.saveHttpToCollection (failing reason list) false).collection = ws.collection ∧
      (ws.saveHttpToCollection (failing reason list) false).requestCursor = ws.requestCursor := by
  cases active : ws.session with
  | none => simp [saveHttpToCollection, active, flashErr]
  | some s =>
    cases loaded : ws.collection with
    | none => simp [showsSome, loaded] at shows
    | some col =>
      simp only [showsSome, loaded, Option.map_some, Option.getD_some, Bool.and_eq_true,
        Bool.not_eq_true', List.isEmpty_eq_false_iff] at shows
      obtain ⟨shown, filled⟩ := shows
      cases here : col.requests[ws.requestCursor]? <;>
        simp only [saveHttpToCollection, active, loaded, Option.getD_some, shown, filled, here, failing,
          flashErr, Bool.false_eq_true, Bool.true_eq_false, or_self, if_false, and_self]

/-- An edit that cannot be saved leaves the collection and the cursor as they were exactly in the
states that are safe for it. -/
theorem edit_atomic_iff (edit : CollectionEdit) :
    ((ws.edit (failing reason list) edit).collection = ws.collection ∧
      (ws.edit (failing reason list) edit).requestCursor = ws.requestCursor) ↔ ws.Safe edit := by
  cases edit with
  | delete => exact deleteRequest_failing_iff ws reason list
  | append => exact append_failing_iff ws reason list
  | overwrite =>
    cases shows : ws.showsSome with
    | true =>
      have kept := overwrite_failing ws reason list shows
      exact iff_of_true (by simpa [CollectionsPane.edit, shows] using kept) (.inl shows)
    | false =>
      simpa [CollectionsPane.edit, Safe, shows] using append_failing_iff ws reason list

end

/-- A collection of one request, which is shown. -/
def oneShown : CollectionsPane where
  session := none
  collection := some { name := "demo", requests := [{ name := "ping" }] }
  collectionNames := ["demo"]
  collectionShowRequests := true
  requestCursor := 0
  statusFlash := ""
  flashKind := .ok

theorem unsaved_delete_stays :
    oneShown.collection = some { name := "demo", requests := [{ name := "ping" }] } ∧
    (oneShown.edit (failing (fun _ => "write demo.toml") none) .delete).collection =
      some { name := "demo", requests := [] } :=
  ⟨rfl, rfl⟩

end CollectionsPane

end BitBeak
