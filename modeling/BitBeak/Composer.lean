import BitBeak.Dissect.Utf8Text
import BitBeak.Frame.Filter
import BitBeak.Lib.Scan

/-! The composer: payloads as texts to edit, and texts as payloads. A payload that is a text
is put into the editor as it is; its backslashes are read as escapes when it is sent. -/
namespace BitBeak
open BoolText ByteText Utf8
open Wire hiding slice

inductive ComposerMode where
  | utf8
  | hex
  deriving DecidableEq, Repr

def hexDigit (b : UInt8) : Except String UInt8 := hexNibble b

/-- The escapes of one letter. -/
def letterEscape (b : UInt8) : Option UInt8 :=
  if b = 0x6e then some 0x0a
  else if b = 0x72 then some 0x0d
  else if b = 0x74 then some 0x09
  else if b = 0x5c then some 0x5c
  else none

/-- The loop over the octets of a text, from offset `i` on. -/
def escapesLoop (text : Text) : Nat → Nat → Checked String Bytes
  | 0, _ => ExceptT.mk (.error .outOfFuel)
  | fuel + 1, i =>
    match (encode text)[i]? with
    | none => return []
    | some b =>
      if b = 0x5c then
        match (encode text)[i + 1]? with
        | none => throw "trailing backslash"
        | some letter =>
          match letterEscape letter with
          | some octet => do return octet :: (← escapesLoop text fuel (i + 2))
          | none =>
            if letter = 0x78 then
              match (encode text)[i + 2]?, (encode text)[i + 3]? with
              | some high, some low => do
                let hi ← given (hexDigit high)
                let lo ← given (hexDigit low)
                return (hi <<< 4 ||| lo) :: (← escapesLoop text fuel (i + 4))
              | _, _ => throw "incomplete \\x escape"
            else do return 0x5c :: letter :: (← escapesLoop text fuel (i + 2))
      else do
        -- `text[i..]` stops the program inside a character.
        match ← tailFrom text i with
        | [] => throw "invalid utf-8"
        | c :: _ =>
          let octets := String.utf8EncodeChar c
          return octets ++ (← escapesLoop text fuel (i + octets.length))

def decodeUtf8Escapes (text : String) : Checked String Bytes :=
  escapesLoop text.toList (size text.toList + 1) 0

def decodePayload (text : String) : ComposerMode → Checked String Bytes
  | .utf8 => decodeUtf8Escapes text
  | .hex => given (parseHexBytes text)

/-- `char::is_control`. -/
def isControl (c : Char) : Bool := c.toNat < 0x20 || (0x7f ≤ c.toNat && c.toNat ≤ 0x9f)

/-- A character that is put into the editor as it is. -/
def isEditable (c : Char) : Bool := !isControl c || c == '\n' || c == '\r' || c == '\t'

/-- An octet in the escaped form; only the backslash is not shown as in a preview. -/
def escapeByte (b : UInt8) : String := if b = 0x5c then "\\\\" else previewByte b

def escaped (payload : Bytes) : String := String.join (payload.map escapeByte)

def encodeForEdit (payload : Bytes) : ComposerMode → String
  | .utf8 =>
    match fromUtf8 payload with
    | some s => if s.toList.all isEditable then s else escaped payload
    | none => escaped payload
  | .hex => " ".intercalate (payload.map fun b => hexDigits 2 b.toNat)

end BitBeak
