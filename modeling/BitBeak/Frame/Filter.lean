import BitBeak.Frame
import BitBeak.Http.Text
import BitBeak.Lib.Utf8

/-! Which frames of a log a query selects. -/
namespace BitBeak
open Wire

/-- An octet as a character, the way `b as char` reads it. -/
def octetChar (b : UInt8) : Char := Char.ofNat b.toNat

def hexNibble (b : UInt8) : Except String UInt8 :=
  if 0x30 ≤ b ∧ b ≤ 0x39 then .ok (b - 0x30)
  else if 0x61 ≤ b ∧ b ≤ 0x66 then .ok (b - 0x61 + 10)
  else if 0x41 ≤ b ∧ b ≤ 0x46 then .ok (b - 0x41 + 10)
  else .error ("invalid hex digit " ++ String.singleton (octetChar b))

/-- The loop over pairs of digits. -/
def nibblePairs : Bytes → Except String Bytes
  | high :: low :: rest => do
    let hi ← hexNibble high
    let lo ← hexNibble low
    return (hi <<< 4 ||| lo) :: (← nibblePairs rest)
  | _ => return []

def isHexDigitText (c : Char) : Bool := !isWhitespace c && c != ':' && c != '-'

def parseHexBytes (s : String) : Except String Bytes :=
  let cleaned := Utf8.encode (s.toList.filter isHexDigitText)
  if cleaned.length % 2 ≠ 0 then .error "odd hex length" else nibblePairs cleaned

def previewByte (b : UInt8) : String :=
  if b = 0x0a then "\\n"
  else if b = 0x0d then "\\r"
  else if b = 0x09 then "\\t"
  else if 0x20 ≤ b ∧ b ≤ 0x7e then String.singleton (octetChar b)
  else "\\x" ++ hexDigits 2 b.toNat

/-- The loop of the preview, which stops where the text has `max` octets. -/
def previewLoop (max : Nat) : Bytes → String → String
  | [], out => out
  | b :: rest, out =>
    if max ≤ out.utf8ByteSize then out.push '…' else previewLoop max rest (out ++ previewByte b)

def previewBytes (payload : Bytes) (max : Nat) : String := previewLoop max payload ""

def Frame.preview (f : Frame) (max : Nat) : String := previewBytes f.payload max

def Frame.matchesFilter (f : Frame) (query : String) : Bool :=
  if query = "" then true
  else
    let q := trim query
    match stripPrefix q "hex:" with
    | some hex =>
      match parseHexBytes (trim hex) with
      | .ok needle => !needle.isEmpty && f.payload.tails.any needle.isPrefixOf
      | .error _ => false
    | none =>
      match stripPrefix q "dir:" with
      | some dir =>
        let d := toAsciiLowercase (trim dir)
        if d ∈ ["in", "<-", "rx"] then f.direction == .inward
        else if d ∈ ["out", "->", "tx"] then f.direction == .outward
        else false
      | none =>
        let lower := toAsciiLowercase q
        hasText (toAsciiLowercase (f.preview 256)) lower ||
          (fromUtf8 f.payload).any (fun text => hasText (toAsciiLowercase text) lower) ||
          f.peer.any fun peer => hasText (toAsciiLowercase peer) lower

def FrameBuffer.filtered (buf : FrameBuffer) (query : String) : List Frame :=
  buf.frames.filter (·.matchesFilter query)

/- Two digits are an octet. -/

theorem hexDigits_two (b : UInt8) : (hexDigits 2 b.toNat).toList =
    [Nat.digitChar (b.toNat / 16), Nat.digitChar (b.toNat % 16)] := by
  have octet := b.toNat_lt
  rw [hexDigits, String.toList_ofList, Nat.toDigits_eq_if (by decide)]
  split
  · next one =>
    rw [Nat.div_eq_of_lt one, Nat.mod_eq_of_lt one]
    rfl
  · next two =>
    rw [Nat.toDigits_eq_if (by decide), if_pos (by omega)]
    rfl

theorem digitChar_hex {n : Nat} (small : n < 16) : (Nat.digitChar n).toNat < 128 ∧
    isHexDigitText (Nat.digitChar n) = true ∧
    hexNibble (UInt8.ofNat (Nat.digitChar n).toNat) = .ok (UInt8.ofNat n) := by
  have all : ∀ n : Fin 16, (Nat.digitChar n).toNat < 128 ∧
      isHexDigitText (Nat.digitChar n) = true ∧
      hexNibble (UInt8.ofNat (Nat.digitChar n).toNat) = .ok (UInt8.ofNat n) := by decide
  exact all ⟨n, small⟩

theorem nibbles_join (b : UInt8) :
    UInt8.ofNat (b.toNat / 16) <<< 4 ||| UInt8.ofNat (b.toNat % 16) = b := by
  have all : ∀ n : Fin 256,
      UInt8.ofNat (n / 16) <<< 4 ||| UInt8.ofNat (n % 16) = UInt8.ofNat n := by decide +kernel
  simpa using all ⟨b.toNat, b.toNat_lt⟩

end BitBeak
