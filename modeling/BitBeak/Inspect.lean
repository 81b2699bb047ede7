import BitBeak.Dissect.HttpObjects
import BitBeak.Lib.Scan

/-! The inspector's coloured lines. A line is scanned by the offsets of its octets, and cut into
spans of strings, numbers, literals and what is between them. -/
namespace BitBeak.Inspect
open BoolText ByteText Utf8
open Wire hiding slice

/-- A MessagePack value; a string that is not UTF-8 has no text. -/
inductive Value where
  | nil
  | boolean (b : Bool)
  | integer (i : Int)
  | f32 (shown : String)
  | f64 (shown : String)
  | string (text : Option String)
  | binary (len : Nat)
  | array (items : List Value)
  | map (entries : List (Value × Value))
  | ext (tag : Int) (len : Nat)

def pad (indent : Nat) : String := String.join (List.replicate indent "  ")

mutual

def formatMsgpack (indent : Nat) : Value → String
  | .nil => pad indent ++ "null"
  | .boolean b => pad indent ++ toString b
  | .integer i => pad indent ++ toString i
  | .f32 shown => pad indent ++ shown
  | .f64 shown => pad indent ++ shown
  | .string text => pad indent ++ "\"" ++ text.getD "" ++ "\""
  | .binary len => pad indent ++ "<bin " ++ toString len ++ " bytes>"
  | .array items => pad indent ++ "[\n" ++ formatItems indent items ++ pad indent ++ "]"
  | .map entries => pad indent ++ "\x7b\n" ++ formatEntries indent entries ++ pad indent ++ "\x7d"
  | .ext tag len => pad indent ++ "<ext " ++ toString tag ++ " " ++ toString len ++ " bytes>"

def formatItems (indent : Nat) : List Value → String
  | [] => ""
  | item :: items => formatMsgpack (indent + 1) item ++ "\n" ++ formatItems indent items

def formatEntries (indent : Nat) : List (Value × Value) → String
  | [] => ""
  | (k, val) :: entries =>
    let nested := trim (formatMsgpack 0 val)
    formatMsgpack (indent + 1) k ++ ": " ++
      (if '\n' ∈ nested.toList then "\n" ++ formatMsgpack (indent + 1) val else nested) ++ "\n" ++
      formatEntries indent entries

end

/- Colours. -/

inductive TokenStyle where
  | key
  | string
  | number
  | literal
  | value
  deriving DecidableEq, Repr

structure Span where
  text : Text
  style : TokenStyle
  deriving DecidableEq, Repr

def isDigitByte (b : UInt8) : Bool := 0x30 ≤ b && b ≤ 0x39

/-- A digit, a point, an exponent or a sign. -/
def isNumberByte (b : UInt8) : Bool := isDigitByte b || [0x2e, 0x65, 0x45, 0x2b, 0x2d].contains b

/-- The octets of a string behind its opening quote, with its closing one; a backslash takes the
octet behind it. -/
def stringLength : Bytes → Nat
  | [] => 0
  | b :: rest =>
    if b = 0x5c then
      match rest with
      | [] => 1
      | _ :: rest => 2 + stringLength rest
    else if b = 0x22 then 1
    else 1 + stringLength rest

section
variable (line : Text)

def digitAt (i : Nat) : Bool := (encode line)[i]?.any isDigitByte

/-- The literal that begins at the offset. -/
def literalAt (i : Nat) : Except Panic (Option Text) := do
  let rest ← tailFrom line i
  return [['t', 'r', 'u', 'e'], ['f', 'a', 'l', 's', 'e'], ['n', 'u', 'l', 'l']].find?
    fun word => word.isPrefixOf rest

/-- Where the next string, number or literal begins, from the offset on. -/
def valueEnd : Nat → Nat → Except Panic Nat
  | 0, _ => .error .outOfFuel
  | fuel + 1, i =>
    match (encode line)[i]? with
    | none => .ok i
    | some b =>
      if b = 0x22 ∨ isDigitByte b then .ok i
      else do
        if (← literalAt line i).isSome then return i
        else if b = 0x2d ∧ digitAt line (i + 1) then return i
        else valueEnd fuel (i + 1)

/-- The spans from the offset on. -/
def colorizeLoop : Nat → Nat → Except Panic (List Span)
  | 0, _ => .error .outOfFuel
  | fuel + 1, i =>
    match (encode line)[i]? with
    | none => .ok []
    | some b =>
      if b = 0x22 then do
        let stop := i + 1 + stringLength ((encode line).drop (i + 1))
        let s ← slice line i stop
        let rest := (← tailFrom line stop).dropWhile isWhitespace
        let style := if rest.head? = some ':' then TokenStyle.key else .string
        return ⟨s, style⟩ :: (← colorizeLoop fuel stop)
      else if isDigitByte b ∨ b = 0x2d ∧ digitAt line (i + 1) then do
        let stop := i + 1 + (((encode line).drop (i + 1)).takeWhile isNumberByte).length
        return ⟨← slice line i stop, .number⟩ :: (← colorizeLoop fuel stop)
      else do
        match ← literalAt line i with
        | some lit => return ⟨lit, .literal⟩ :: (← colorizeLoop fuel (i + size lit))
        | none =>
          let stop ← valueEnd line (size line + 1) (i + 1)
          return ⟨← slice line i stop, .value⟩ :: (← colorizeLoop fuel stop)

end

def colorizeJsonLine (line : String) : Except Panic (List Span) := do
  let spans ← colorizeLoop line.toList (size line.toList + 1) 0
  return if spans = [] then [⟨line.toList, .value⟩] else spans

/-- The first lines of a MessagePack value, with colours. -/
def msgpackLines (v : Value) (maxLines : Nat) : Except Panic (List (List Span)) :=
  ((textLines (formatMsgpack 0 v).toList).take maxLines).mapM fun line =>
    colorizeJsonLine (String.ofList line)

end BitBeak.Inspect
