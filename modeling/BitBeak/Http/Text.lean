import BitBeak.Dissect.Text
import Mathlib.Data.List.DropRight

/-! Operations of the standard library on text that the HTTP client and its cookie jar use. -/
namespace BitBeak

def trim (text : String) : String :=
  String.ofList ((text.toList.dropWhile isWhitespace).rdropWhile isWhitespace)

def toAsciiLowercase (text : String) : String := String.ofList (text.toList.map Char.toLower)

def eqIgnoreAsciiCase (a b : String) : Bool :=
  a.toList.map Char.toLower == b.toList.map Char.toLower

/-- The texts in front of and behind the first `c`. -/
def splitOnce (c : Char) (text : String) : Option (String × String) :=
  match text.toList.span (· ≠ c) with
  | (front, _ :: rest) => some (String.ofList front, String.ofList rest)
  | (_, []) => none

/-- The texts in front of and behind the last `c`. -/
def rsplitOnce (c : Char) (text : String) : Option (String × String) :=
  if c ∈ text.toList then
    some (String.ofList (text.toList.rdropWhile (· ≠ c)).dropLast,
      String.ofList (text.toList.rtakeWhile (· ≠ c)))
  else none

/-- The text in front of the first `c`, or all of it. -/
def textBefore (c : Char) (text : String) : String :=
  String.ofList (text.toList.takeWhile (· ≠ c))

/-- The text in front of the last `c`, or all of it. -/
def textBeforeLast (c : Char) (text : String) : String :=
  if c ∈ text.toList then String.ofList (text.toList.rdropWhile (· ≠ c)).dropLast else text

theorem differs_of_outside {c : Char} {t : List Char} (outside : c ∉ t) :
    ∀ d ∈ t, decide (d ≠ c) = true :=
  fun _ member => decide_eq_true fun same => outside (same ▸ member)

theorem textBefore_outside {c : Char} {text : String} (outside : c ∉ text.toList) :
    textBefore c text = text := by
  rw [textBefore, List.takeWhile_eq_self_iff.mpr (differs_of_outside outside), String.ofList_toList]

def splitText (c : Char) (text : String) : List String :=
  (text.toList.splitOn c).map String.ofList

def trimStart (c : Char) (text : String) : String := String.ofList (text.toList.dropWhile (· = c))

def hasSuffix (text ending : String) : Bool := ending.toList.isSuffixOf text.toList

/- `from_str` of the integer types: decimal digits behind an optional sign. -/

def parseDigits (digits : List Char) : Option Nat :=
  if digits ≠ [] ∧ digits.all (·.isDigit) then some (Nat.ofDigitChars 10 digits 0) else none

def parseUnsigned (limit : Nat) (text : String) : Option Nat :=
  let digits := if hasPrefix text "+" then text.toList.drop 1 else text.toList
  (parseDigits digits).filter (· < limit)

def parseSigned (limit : Nat) (text : String) : Option Int :=
  if hasPrefix text "-" then
    ((parseDigits (text.toList.drop 1)).filter (· ≤ limit)).map fun n => -(n : Int)
  else (parseUnsigned limit text).map fun n => (n : Int)

end BitBeak
