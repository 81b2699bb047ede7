import BitBeak.Collections.Import
import Mathlib.Data.List.Lex
import Mathlib.Data.List.Sort

/-! The tree of the items of a Postman document: its requests by their places, and what is imported
of them. -/
namespace BitBeak.Collections

/-- The item at a place, behind the folders it is in, from the outside in. -/
def itemAt : List Nat → List Json → Option (List Json × Json)
  | [], _ => none
  | [i], items => items[i]?.map fun item => ([], item)
  | i :: place, items => do
    let folder ← items[i]?
    let children ← childrenOf folder
    let (folders, item) ← itemAt place children
    return (folder :: folders, item)

/-- An item that is no folder, and has a request. -/
def IsRequest (item : Json) : Prop := childrenOf item = none ∧ item.get "request" ≠ none

/-- The requests of the tree from the place `i` on, each with its place. -/
def requestsFrom (i : Nat) : List Json → List (List Nat × List Json × Json)
  | [] => []
  | item :: items =>
    let here :=
      match _found : childrenOf item with
      | some children =>
        (requestsFrom 0 children).map fun r => (i :: r.1, item :: r.2.1, r.2.2)
      | none => if (item.get "request").isSome then [([i], [], item)] else []
    here ++ requestsFrom (i + 1) items
termination_by items => sizeOf items
decreasing_by
  · have smaller := sizeOf_children _found
    simp only [List.cons.sizeOf_spec]
    omega
  · simp only [List.cons.sizeOf_spec]
    omega

/-- The name of an item, or what stands in its place. -/
def itemName (item : Json) : String := textOr "request" item "name"

/-- The names of the folders and of the item, with slashes between them. -/
def pathName (folders : List Json) (item : Json) : String :=
  "/".intercalate ((folders ++ [item]).map itemName)

/-- The authentication of the nearest level that has one: of the request, the item, the folders
from the inside out, or of the collection. -/
def nearestAuth (whole : Option Json) (folders : List Json) (item : Json) : Option Json :=
  (((item.get "request").bind (Json.get "auth")).or
    ((item :: folders.reverse).findSome? (Json.get "auth"))).or whole

variable {item : Json} {items children folders : List Json} {place : List Nat}

/-! The four ways an item stands in front of others. -/

@[elab_as_elim]
theorem forest_induction {motive : List Json → Prop} (items : List Json) (nil : motive [])
    (folder : ∀ item children items, childrenOf item = some children → motive children →
      motive items → motive (item :: items))
    (request : ∀ item req items, childrenOf item = none → item.get "request" = some req →
      motive items → motive (item :: items))
    (other : ∀ item items, childrenOf item = none → item.get "request" = none →
      motive items → motive (item :: items)) : motive items := by
  suffices all : ∀ i : Nat, motive items from all 0
  intro i
  induction i, items using requestsFrom.induct with
  | case1 => exact nil
  | case2 _ item items inner outer =>
    cases found : childrenOf item with
    | some children => exact folder item children items found (inner children found) outer
    | none =>
      cases asked : item.get "request" with
      | some req => exact request item req items found asked outer
      | none => exact other item items found asked outer

theorem requestsFrom_folder (found : childrenOf item = some children) (i : Nat) :
    requestsFrom i (item :: items) =
      ((requestsFrom 0 children).map fun r => (i :: r.1, item :: r.2.1, r.2.2)) ++
        requestsFrom (i + 1) items := by
  rw [requestsFrom]
  split <;> simp_all

theorem requestsFrom_request {req : Json} (leaf : childrenOf item = none)
    (asked : item.get "request" = some req) (i : Nat) :
    requestsFrom i (item :: items) = ([i], [], item) :: requestsFrom (i + 1) items := by
  rw [requestsFrom]
  split <;> simp_all

theorem requestsFrom_other (leaf : childrenOf item = none) (silent : item.get "request" = none)
    (i : Nat) : requestsFrom i (item :: items) = requestsFrom (i + 1) items := by
  rw [requestsFrom]
  split <;> simp_all

theorem walk_folder (found : childrenOf item = some children) (folder : String)
    (inherited : Option Json) :
    walkPostmanItems folder inherited (item :: items) =
      walkPostmanItems (nameBelow folder (itemName item)) ((item.get "auth").or inherited)
        children ++ walkPostmanItems folder inherited items := by
  rw [walkPostmanItems]
  split <;> simp_all [itemName]

theorem walk_request {req : Json} (leaf : childrenOf item = none)
    (asked : item.get "request" = some req) (folder : String) (inherited : Option Json) :
    walkPostmanItems folder inherited (item :: items) =
      postmanRequest (nameBelow folder (itemName item))
        ((req.get "auth").or ((item.get "auth").or inherited)) item req ::
        walkPostmanItems folder inherited items := by
  rw [walkPostmanItems]
  split <;> simp_all [itemName]

theorem walk_other (leaf : childrenOf item = none) (silent : item.get "request" = none)
    (folder : String) (inherited : Option Json) :
    walkPostmanItems folder inherited (item :: items) =
      walkPostmanItems folder inherited items := by
  rw [walkPostmanItems]
  split <;> simp_all

/-! The places of the requests. -/

theorem itemAt_inside (i : Nat) :
    itemAt (0 :: i :: place) (item :: items) =
      (childrenOf item).bind fun children =>
        (itemAt (i :: place) children).map fun found => (item :: found.1, found.2) := by
  cases inside : childrenOf item with
  | none => simp [itemAt, inside]
  | some children =>
    cases below : itemAt (i :: place) children <;> simp [itemAt, inside, below]

theorem itemAt_next (i : Nat) :
    itemAt ((i + 1) :: place) (item :: items) = itemAt (i :: place) items := by
  cases place with
  | nil => rfl
  | cons j place => rfl

/-- A request of the tree, if the places of the items start with `i`. -/
def PlacedFrom (i : Nat) (items : List Json) (r : List Nat × List Json × Json) : Prop :=
  ∃ j rest, r.1 = (i + j) :: rest ∧ itemAt (j :: rest) items = some r.2 ∧ IsRequest r.2.2

/-- A request that is the first item, or stands in it. -/
def PlacedFirst (i : Nat) (item : Json) (r : List Nat × List Json × Json) : Prop :=
  ∃ rest, r.1 = i :: rest ∧ itemAt (0 :: rest) [item] = some r.2 ∧ IsRequest r.2.2

theorem itemAt_first : itemAt (0 :: place) (item :: items) = itemAt (0 :: place) [item] := by
  cases place with
  | nil => rfl
  | cons j place => rw [itemAt_inside, itemAt_inside]

theorem placedFrom_cons {i : Nat} {r : List Nat × List Json × Json} :
    PlacedFrom i (item :: items) r ↔ PlacedFirst i item r ∨ PlacedFrom (i + 1) items r := by
  constructor
  · intro ⟨j, rest, place, there, asks⟩
    cases j with
    | zero => exact .inl ⟨rest, place, itemAt_first ▸ there, asks⟩
    | succ j =>
      rw [itemAt_next] at there
      exact .inr ⟨j, rest, by simp only [place, Nat.add_assoc, Nat.add_comm 1], there, asks⟩
  · rintro (⟨rest, place, there, asks⟩ | ⟨j, rest, place, there, asks⟩)
    · exact ⟨0, rest, place, itemAt_first ▸ there, asks⟩
    · exact ⟨j + 1, rest, by simp only [place, Nat.add_assoc, Nat.add_comm 1],
        (itemAt_next j).trans there, asks⟩

theorem placedFirst_folder {i : Nat} {r : List Nat × List Json × Json}
    (found : childrenOf item = some children) :
    PlacedFirst i item r ↔ ∃ inner, PlacedFrom 0 children inner ∧
      r = (i :: inner.1, item :: inner.2.1, inner.2.2) := by
  obtain ⟨place, folders, last⟩ := r
  constructor
  · rintro ⟨rest, rfl, there, asks⟩
    cases rest with
    | nil =>
      have same : ([], item) = (folders, last) := Option.some.inj there
      cases same
      cases asks.1.symm.trans found
    | cons j rest =>
      rw [itemAt_inside, found, Option.bind_some] at there
      obtain ⟨inner, below, same⟩ := Option.map_eq_some_iff.mp there
      cases same
      exact ⟨(j :: rest, inner), ⟨j, rest, by simp, below, asks⟩, rfl⟩
  · rintro ⟨⟨place, inner⟩, ⟨j, rest, start, below, asks⟩, same⟩
    cases same
    simp only [Nat.zero_add] at start
    refine ⟨j :: rest, by rw [start], ?_, asks⟩
    rw [itemAt_inside, found, Option.bind_some, below]
    rfl

theorem placedFirst_leaf {i : Nat} {r : List Nat × List Json × Json}
    (leaf : childrenOf item = none) :
    PlacedFirst i item r ↔ item.get "request" ≠ none ∧ r = ([i], [], item) := by
  obtain ⟨place, folders, last⟩ := r
  constructor
  · rintro ⟨rest, rfl, there, asks⟩
    cases rest with
    | nil =>
      have same : ([], item) = (folders, last) := Option.some.inj there
      cases same
      exact ⟨asks.2, rfl⟩
    | cons j rest =>
      rw [itemAt_inside, leaf] at there
      cases there
  · rintro ⟨asked, same⟩
    cases same
    exact ⟨[], rfl, rfl, leaf, asked⟩

/-- What is found are the requests at their places. -/
theorem mem_requestsFrom {i : Nat} {r : List Nat × List Json × Json} :
    r ∈ requestsFrom i items ↔ PlacedFrom i items r := by
  induction items using forest_induction generalizing i r with
  | nil =>
    constructor
    · intro member
      simp [requestsFrom] at member
    · rintro ⟨j, rest, -, there, -⟩
      cases rest <;> simp [itemAt] at there
  | folder item children items found inner outer =>
    rw [requestsFrom_folder found, List.mem_append, outer, placedFrom_cons,
      placedFirst_folder found]
    simp only [List.mem_map, inner, eq_comm]
  | request item req items leaf asked outer =>
    rw [requestsFrom_request leaf asked, List.mem_cons, outer, placedFrom_cons,
      placedFirst_leaf leaf]
    simp [asked]
  | other item items leaf silent outer =>
    rw [requestsFrom_other leaf silent, outer, placedFrom_cons, placedFirst_leaf leaf]
    simp [silent]

theorem placed_of_mem {r : List Nat × List Json × Json} (member : r ∈ requestsFrom 0 items) :
    itemAt r.1 items = some r.2 ∧ IsRequest r.2.2 := by
  obtain ⟨j, rest, start, there, asks⟩ := mem_requestsFrom.mp member
  rw [start, Nat.zero_add]
  exact ⟨there, asks⟩

theorem place_before_next {i : Nat} {place : List Nat} {r : List Nat × List Json × Json}
    (later : r ∈ requestsFrom (i + 1) items) : i :: place < r.1 := by
  obtain ⟨j, rest, start, -, -⟩ := mem_requestsFrom.mp later
  rw [start, List.cons_lt_cons_iff]
  exact .inl (by omega)

/-- They are found in the order of their places: what stands in an item is found behind what
stands in the items in front of it. -/
theorem requestsFrom_sorted (i : Nat) (items : List Json) :
    (requestsFrom i items).Pairwise fun r r' => r.1 < r'.1 := by
  induction items using forest_induction generalizing i with
  | nil => simp [requestsFrom]
  | folder item children items found inner outer =>
    rw [requestsFrom_folder found, List.pairwise_append]
    refine ⟨?_, outer (i + 1), ?_⟩
    · simpa [List.pairwise_map, List.cons_lt_cons_iff] using inner 0
    · intro r member r' later
      obtain ⟨below, -, rfl⟩ := List.mem_map.mp member
      exact place_before_next later
  | request item req items leaf asked outer =>
    rw [requestsFrom_request leaf asked, List.pairwise_cons]
    exact ⟨fun r' later => place_before_next later, outer (i + 1)⟩
  | other item items leaf silent outer =>
    rw [requestsFrom_other leaf silent]
    exact outer (i + 1)

theorem mem_places : place ∈ (requestsFrom 0 items).map Prod.fst ↔
    ∃ folders item, itemAt place items = some (folders, item) ∧ IsRequest item := by
  constructor
  · intro member
    obtain ⟨r, found, rfl⟩ := List.mem_map.mp member
    exact ⟨r.2.1, r.2.2, placed_of_mem found⟩
  · rintro ⟨folders, item, there, asks⟩
    cases place with
    | nil => cases there
    | cons j rest =>
      have placed : PlacedFrom 0 items (j :: rest, folders, item) := ⟨j, rest, by simp, there, asks⟩
      exact List.mem_map.mpr ⟨_, mem_requestsFrom.mpr placed, rfl⟩

/-- There is no other list of the places of the requests in this order. -/
theorem places_unique {places : List (List Nat)} (sorted : places.Pairwise (· < ·))
    (exactly : ∀ place, place ∈ places ↔
      ∃ folders item, itemAt place items = some (folders, item) ∧ IsRequest item) :
    places = (requestsFrom 0 items).map Prod.fst := by
  have sorted' := List.pairwise_map.mpr (requestsFrom_sorted 0 items)
  exact sorted.eq_of_mem_iff sorted' fun place => (exactly place).trans mem_places.symm

/-! The names and the authentication that are carried down the tree. -/

/-- The name that is made of the names, one after the other. -/
def nameDown (folder : String) (folders : List Json) (item : Json) : String :=
  ((folders ++ [item]).map itemName).foldl nameBelow folder

/-- The authentication that is handed down, from the outside in. -/
def authDown (inherited : Option Json) (folders : List Json) (item : Json) : Option Json :=
  ((item.get "request").bind (Json.get "auth")).or
    ((folders ++ [item]).foldl (fun auth level => (level.get "auth").or auth) inherited)

/-- The request that is imported of an item. -/
def importedOf (folder : String) (inherited : Option Json) (r : List Nat × List Json × Json) :
    SavedRequest :=
  postmanRequest (nameDown folder r.2.1 r.2.2) (authDown inherited r.2.1 r.2.2) r.2.2
    (((r.2.2).get "request").getD .null)

theorem walk_eq (folder : String) (inherited : Option Json) (i : Nat) :
    walkPostmanItems folder inherited items =
      (requestsFrom i items).map (importedOf folder inherited) := by
  induction items using forest_induction generalizing folder inherited i with
  | nil => simp [walkPostmanItems, requestsFrom]
  | folder item children items found inner outer =>
    rw [walk_folder found, requestsFrom_folder found, List.map_append, List.map_map,
      inner _ _ 0, outer _ _ (i + 1)]
    rfl
  | request item req items leaf asked outer =>
    rw [walk_request leaf asked, requestsFrom_request leaf asked, List.map_cons,
      outer _ _ (i + 1)]
    simp [importedOf, nameDown, authDown, asked]
  | other item items leaf silent outer =>
    rw [walk_other leaf silent, requestsFrom_other leaf silent, outer _ _ (i + 1)]

theorem foldl_auth (levels : List Json) (inherited : Option Json) :
    levels.foldl (fun auth level => (level.get "auth").or auth) inherited =
      (levels.reverse.findSome? (Json.get "auth")).or inherited := by
  induction levels generalizing inherited with
  | nil => rfl
  | cons level levels ih => simp [ih, List.findSome?_append, Option.or_assoc]

theorem authDown_eq_nearest (whole : Option Json) (folders : List Json) (item : Json) :
    authDown whole folders item = nearestAuth whole folders item := by
  simp only [authDown, nearestAuth, foldl_auth, List.reverse_append, List.reverse_singleton,
    List.singleton_append, Option.or_assoc]

theorem foldl_nameBelow {folder : String} (named : folder ≠ "") (names : List String) :
    names.foldl nameBelow folder = "/".intercalate (folder :: names) := by
  induction names generalizing folder with
  | nil => simp
  | cons name names ih =>
    have longer : folder ++ "/" ++ name ≠ "" := by simp [String.append_eq_empty_iff]
    rw [List.foldl_cons, nameBelow, if_neg named, ih longer, String.intercalate_cons_cons,
      String.intercalate_cons_append]

theorem length_nameDown (names : List String) :
    (names.foldl nameBelow "").length ≤ ("/".intercalate names).length := by
  induction names with
  | nil => simp
  | cons name names ih =>
    by_cases named : name = ""
    · cases names with
      | nil => simp [nameBelow]
      | cons name' names =>
        rw [List.foldl_cons, nameBelow, if_pos rfl, named, String.intercalate_cons_cons]
        simp only [String.length_append]
        omega
    · simp [nameBelow, foldl_nameBelow named]

/-- The name that is carried down is the path, but below a folder without a name at the top: this
is taken for no folder at all. -/
theorem nameDown_eq_path {folders : List Json} {item : Json} :
    nameDown "" folders item = pathName folders item ↔
      ∀ folder ∈ folders.head?, itemName folder ≠ "" := by
  cases folders with
  | nil => simp [nameDown, pathName, nameBelow]
  | cons folder folders =>
    obtain ⟨name, names, inner⟩ : ∃ name names, (folders ++ [item]).map itemName = name :: names :=
      List.exists_cons_of_ne_nil (by simp)
    have path : pathName (folder :: folders) item =
        itemName folder ++ "/" ++ "/".intercalate (name :: names) := by
      rw [pathName, List.cons_append, List.map_cons, inner, String.intercalate_cons_cons]
    have down : nameDown "" (folder :: folders) item =
        (name :: names).foldl nameBelow (itemName folder) := by
      rw [nameDown, List.cons_append, List.map_cons, inner, List.foldl_cons, nameBelow, if_pos rfl]
    simp only [List.head?_cons, Option.mem_some_iff, forall_eq', path, down]
    constructor
    · intro same unnamed
      have shorter := length_nameDown (name :: names)
      have lengths := congrArg String.length same
      simp only [unnamed, String.length_append] at lengths
      have slash : "/".length = 1 := by decide
      omega
    · intro named
      rw [foldl_nameBelow named, String.intercalate_cons_cons]

/-- What is imported of a tree: its requests, and no others, in the order of their places; each
with its path as its name and the authentication that is nearest to it. -/
def ImportedInOrder (whole : Option Json) (items : List Json) (requests : List SavedRequest) :
    Prop :=
  ∃ places : List (List Nat),
    places.Pairwise (· < ·) ∧
    (∀ place, place ∈ places ↔
      ∃ folders item, itemAt place items = some (folders, item) ∧ IsRequest item) ∧
    List.Forall₂ (fun place r => ∃ folders item req,
        itemAt place items = some (folders, item) ∧ item.get "request" = some req ∧
        r = postmanRequest (pathName folders item) (nearestAuth whole folders item) item req)
      places requests

/-- A folder at the top whose name is empty is all that stands between a tree and its import. -/
theorem walk_in_order_iff (whole : Option Json) (items : List Json) :
    ImportedInOrder whole items (walkPostmanItems "" whole items) ↔
      ∀ place folders item, itemAt place items = some (folders, item) → IsRequest item →
        ∀ folder ∈ folders.head?, itemName folder ≠ "" := by
  rw [walk_eq _ _ 0]
  constructor
  · rintro ⟨places, sorted, exactly, each⟩ place folders item there asks
    rw [places_unique sorted exactly, List.forall₂_map_left_iff, List.forall₂_map_right_iff,
      List.forall₂_same] at each
    obtain ⟨⟨place, within, last⟩, member, rfl⟩ :=
      List.mem_map.mp (mem_places.mpr ⟨folders, item, there, asks⟩)
    obtain ⟨folders', item', req, there', -, same⟩ := each _ member
    have found := (placed_of_mem member).1
    cases Option.some.inj (there.symm.trans found)
    cases Option.some.inj (there'.symm.trans found)
    exact nameDown_eq_path.mp (congrArg SavedRequest.name same)
  · intro named
    refine ⟨_, List.pairwise_map.mpr (requestsFrom_sorted 0 items), fun _ => mem_places, ?_⟩
    rw [List.forall₂_map_left_iff, List.forall₂_map_right_iff, List.forall₂_same]
    intro r member
    obtain ⟨there, asks⟩ := placed_of_mem member
    obtain ⟨req, asked⟩ := Option.ne_none_iff_exists'.mp asks.2
    have path : nameDown "" r.2.1 r.2.2 = pathName r.2.1 r.2.2 :=
      nameDown_eq_path.mpr (named r.1 r.2.1 r.2.2 there asks)
    refine ⟨r.2.1, r.2.2, req, there, asked, ?_⟩
    rw [importedOf, path, authDown_eq_nearest, asked, Option.getD_some]

theorem importPostmanV21_eq {fromStr : String → Option Json} {text : String} {v : Json}
    {col : Collection} (read : fromStr text = some v)
    (imported : importPostmanV21 fromStr text = .ok col) :
    col.requests = walkPostmanItems "" (v.get "auth") ((childrenOf v).getD []) := by
  simp only [importPostmanV21, read] at imported
  split at imported
  · cases imported
  · cases imported
    cases childrenOf v with
    | none => simp [walkPostmanItems]
    | some items => rfl

/-- The requests of a document are imported as they stand in its tree if and only if none of them
is below a folder at the top whose name is empty. -/
theorem import_in_order_iff {fromStr : String → Option Json} {text : String} {v : Json}
    {col : Collection} (read : fromStr text = some v)
    (imported : importPostmanV21 fromStr text = .ok col) :
    ImportedInOrder (v.get "auth") ((childrenOf v).getD []) col.requests ↔
      ∀ place folders item,
        itemAt place ((childrenOf v).getD []) = some (folders, item) → IsRequest item →
        ∀ folder ∈ folders.head?, itemName folder ≠ "" := by
  rw [importPostmanV21_eq read imported]
  exact walk_in_order_iff _ _

theorem outermost_mem {folder : Json} (there : itemAt place items = some (folders, item))
    (outermost : folder ∈ folders.head?) : folder ∈ items := by
  match place, there with
  | [i], there =>
    obtain ⟨_, -, same⟩ := Option.map_eq_some_iff.mp there
    cases same
    cases outermost
  | i :: j :: place, there =>
    obtain ⟨first, at_i, there⟩ := Option.bind_eq_some_iff.mp there
    obtain ⟨children, -, there⟩ := Option.bind_eq_some_iff.mp there
    obtain ⟨inner, -, same⟩ := Option.bind_eq_some_iff.mp there
    cases same
    cases outermost
    exact List.mem_of_getElem? at_i

/-- A document with one request, in a folder of this name. -/
def demo (folder : String) : Json :=
  .object
    [("info", .object [("name", .string "Demo")]),
     ("item", .array
      [.object
        [("name", .string folder),
         ("item", .array
          [.object
            [("name", .string "List"),
             ("request", .object
              [("method", .string "GET"), ("url", .string "https://api.example.com")])]])]])]

/-- Its text. -/
def demoText (folder : String) : String :=
  "\x7b\"info\":\x7b\"name\":\"Demo\"\x7d,\"item\":[\x7b\"name\":\"" ++ folder ++
    "\",\"item\":[\x7b\"name\":\"List\",\"request\":" ++
    "\x7b\"method\":\"GET\",\"url\":\"https://api.example.com\"\x7d\x7d]\x7d]\x7d"

/-- A reader that knows this text. -/
def demoStr (folder : String) (text : String) : Option Json :=
  if text = demoText folder then some (demo folder) else none

def demoCollection (folder : String) : Collection :=
  { name := "Demo", requests := walkPostmanItems "" none ((childrenOf (demo folder)).getD []) }

theorem demo_imported (folder : String) :
    importPostmanV21 (demoStr folder) (demoText folder) = .ok (demoCollection folder) := by
  have read : demoStr folder (demoText folder) = some (demo folder) := if_pos rfl
  simp only [importPostmanV21, read]
  rfl

theorem named_folder_kept :
    importPostmanV21 (demoStr "Folder") (demoText "Folder") = .ok (demoCollection "Folder") ∧
      ImportedInOrder ((demo "Folder").get "auth") ((childrenOf (demo "Folder")).getD [])
        (demoCollection "Folder").requests := by
  refine ⟨demo_imported "Folder",
    (import_in_order_iff (if_pos rfl) (demo_imported "Folder")).mpr ?_⟩
  intro place folders item there _ folder outermost
  have top : ∀ folder ∈ (childrenOf (demo "Folder")).getD [], itemName folder ≠ "" := by
    intro folder member
    cases List.mem_singleton.mp member
    decide
  exact top folder (outermost_mem there outermost)

/-- The request in a folder without a name is imported as if it stood at the top. -/
theorem unnamed_folder_dropped :
    importPostmanV21 (demoStr "") (demoText "") = .ok (demoCollection "") ∧
      ¬ ImportedInOrder ((demo "").get "auth") ((childrenOf (demo "")).getD [])
        (demoCollection "").requests := by
  refine ⟨demo_imported "", fun kept => ?_⟩
  have named := (walk_in_order_iff _ _).mp kept
  exact named [0, 0] _ _ rfl ⟨rfl, nofun⟩ _ rfl rfl

end BitBeak.Collections
