import Mathlib.Tactic.Common

/-! Documents of JSON. The members of an object have different names; the first of a name is the
one that is looked up. A number is kept as the text it was written with. -/

inductive Json where
  | null
  | bool (value : Bool)
  | number (text : String)
  | string (text : String)
  | array (items : List Json)
  | object (members : List (String × Json))
  deriving Repr

namespace Json

def get (key : String) : Json → Option Json
  | object members => (members.find? fun m => m.1 = key).map Prod.snd
  | _ => none

def asStr : Json → Option String
  | string text => some text
  | _ => none

def asArray : Json → Option (List Json)
  | array items => some items
  | _ => none

def asBool : Json → Option Bool
  | bool value => some value
  | _ => none

/-- The text of a member that is a string. -/
def textAt (key : String) (v : Json) : Option String := (v.get key).bind asStr

/-- The value that members with these names lead to, one inside the other. -/
def descend : List String → Json → Option Json
  | [], v => some v
  | key :: keys, v => (v.get key).bind (descend keys)

theorem foldlM_get (keys : List String) (v : Json) :
    keys.foldlM (fun cur key => cur.get key) v = descend keys v := by
  induction keys generalizing v with
  | nil => rfl
  | cons key keys ih =>
    simp only [List.foldlM_cons, descend]
    exact Option.bind_congr fun w _ => ih w

/-- A value is larger than what stands in it. -/
theorem sizeOf_get {key : String} {v w : Json} (found : v.get key = some w) :
    sizeOf w < sizeOf v := by
  cases v with
  | object members =>
    obtain ⟨m, inside, rfl⟩ := Option.map_eq_some_iff.mp found
    have small := List.sizeOf_lt_of_mem (List.mem_of_find?_eq_some inside)
    have parts : sizeOf m = 1 + sizeOf m.1 + sizeOf m.2 := rfl
    simp only [object.sizeOf_spec]
    omega
  | _ => cases found

theorem sizeOf_items {v : Json} {items : List Json} (found : v.asArray = some items) :
    sizeOf items < sizeOf v := by
  cases v with
  | array xs =>
    cases Option.some.inj found
    simp only [array.sizeOf_spec]
    omega
  | _ => cases found

end Json
