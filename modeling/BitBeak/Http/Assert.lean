import BitBeak.Collections
import BitBeak.Lib.Json
import BitBeak.Lib.Utf8

/-! The tests of a response: a small language of assertions. -/
namespace BitBeak.Http
open Wire Collections

structure AssertResult where
  expr : String
  passed : Bool
  detail : String
  deriving DecidableEq, Repr

/-- The JSON crate, and the characters that `\x7b:?\x7d` prints as they are. -/
structure AssertCrates where
  fromSlice : Bytes → Option Json
  jsonText : Json → String
  visible : Char → Bool

def escapeDebug (visible : Char → Bool) (c : Char) : String :=
  match c with
  | '\x00' => "\\0"
  | '\t' => "\\t"
  | '\r' => "\\r"
  | '\n' => "\\n"
  | '\\' => "\\\\"
  | '"' => "\\\""
  | c => if visible c then String.singleton c else "\\u\x7b" ++ hexDigits 1 c.toNat ++ "\x7d"

def debugText (visible : Char → Bool) (text : String) : String :=
  "\"" ++ String.join (text.toList.map (escapeDebug visible)) ++ "\""

def trimMatches (c : Char) (text : String) : String :=
  String.ofList ((text.toList.dropWhile (· = c)).rdropWhile (· = c))

inductive CmpOp where
  | eq
  | ne
  | gt
  | lt
  | ge
  | le
  deriving DecidableEq, Repr

def CmpOp.holds : CmpOp → Nat → Nat → Bool
  | .eq, actual, expect => actual = expect
  | .ne, actual, expect => actual ≠ expect
  | .gt, actual, expect => actual > expect
  | .lt, actual, expect => actual < expect
  | .ge, actual, expect => actual ≥ expect
  | .le, actual, expect => actual ≤ expect

/-- The marks of the comparisons, in the order in which they are tried. -/
def cmpMarks : List (String × CmpOp) :=
  [("==", .eq), ("!=", .ne), (">=", .ge), ("<=", .le), (">", .gt), ("<", .lt), ("=", .eq)]

def cmpU16 (label rest : String) (actual : UInt16) (expr : String) : AssertResult :=
  let rest := trim rest
  match cmpMarks.findSome? fun (mark, op) => (stripPrefix rest mark).map fun val => (op, val) with
  | none => { expr, passed := false, detail := "bad " ++ label ++ " cmp" }
  | some (op, val) =>
    match parseU16 (trim val) with
    | none => { expr, passed := false, detail := "bad number" }
    | some expect =>
      { expr, passed := op.holds actual.toNat expect, detail := toString actual.toNat }

def strOp (expr hay opVal : String) : AssertResult :=
  match stripPrefix opVal "contains " with
  | some v =>
    let needle := trimMatches '"' (trim v)
    let ok := hasText (toAsciiLowercase hay) (toAsciiLowercase needle)
    { expr, passed := ok, detail := if ok then "matched" else "no match" }
  | none =>
    match stripPrefix opVal "==" with
    | some v =>
      let expect := trimMatches '"' (trim v)
      { expr, passed := hay = expect, detail := "got len=" ++ toString (Utf8.size hay.toList) }
    | none => { expr, passed := false, detail := "bad string op" }

/-- The text of a value: a string is its own text. -/
def valueText (crates : AssertCrates) : Json → String
  | .string s => s
  | other => crates.jsonText other

def jsonPointer (crates : AssertCrates) (body : Bytes) (path : String) : Option String := do
  let v ← crates.fromSlice body
  let path := trimStart '.' (trimStart '$' (trim path))
  if path = "" then return crates.jsonText v
  let cur ← (splitText '.' path).foldlM (fun cur part => cur.get part) v
  return valueText crates cur

/-- The value of the first header of the name, or the empty text. -/
def headerText (name : String) (headers : Headers) : String :=
  (headerValue name headers).getD ""

def unknownAssertion (expr : String) : AssertResult :=
  { expr, passed := false, detail := "unknown assertion" }

def evalJsonpath (crates : AssertCrates) (expr rest : String) (body : Bytes) : AssertResult :=
  let rest := trim rest
  let (path, op) :=
    match splitOnce ' ' rest with
    | some (p, o) => (trim p, trim o)
    | none => (rest, "exists")
  let found := jsonPointer crates body path
  if op = "exists" then
    { expr, passed := found.isSome, detail := if found.isSome then "exists" else "missing" }
  else
    match stripPrefix op "==" with
    | some rest =>
      let got := found.getD ""
      { expr, passed := got = trimMatches '"' (trim rest),
        detail := "got " ++ debugText crates.visible got }
    | none => unknownAssertion expr

def evalOne (crates : AssertCrates) (expr : String) (resp : HttpResponse) : AssertResult :=
  let e := trim expr
  match stripPrefix e "status" with
  | some rest => cmpU16 "status" rest resp.status e
  | none =>
    match (stripPrefix e "header ").bind fun rest => splitOnce ' ' (trim rest) with
    | some (name, opVal) => strOp e (headerText (trim name) resp.headers) (trim opVal)
    | none =>
      match stripPrefix e "body " with
      | some rest => strOp e (fromUtf8Lossy resp.body) (trim rest)
      | none =>
        match stripPrefix e "jsonpath " with
        | some rest => evalJsonpath crates e rest resp.body
        | none => unknownAssertion e

def runTests (crates : AssertCrates) (tests : List RequestTest) (resp : HttpResponse) :
    List AssertResult :=
  tests.map fun t => evalOne crates t.expr resp

end BitBeak.Http
