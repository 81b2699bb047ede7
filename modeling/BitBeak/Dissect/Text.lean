import BitBeak.Dissect.Packet
import Mathlib.Data.List.Infix

/-! Text the dissectors write and read: numbers, addresses, and the standard library's
reading of bytes as UTF-8. -/
namespace BitBeak
open Wire

/-- `n` in hexadecimal, padded with zeros to `width` digits. -/
def hexDigits (width n : Nat) : String :=
  let digits := Nat.toDigits 16 n
  String.ofList (List.replicate (width - digits.length) '0' ++ digits)

def hexBytes (bytes : Bytes) : String := String.join (bytes.map fun b => hexDigits 2 b.toNat)

/-- The hardware address in the first six octets. -/
def fmtMac (bytes : Bytes) : String :=
  ":".intercalate ((bytes.take 6).map fun b => hexDigits 2 b.toNat)

/-- The four octets as `Ipv4Addr` displays them. -/
def dotted (bytes : Bytes) : String := ".".intercalate (bytes.map fun b => toString b.toNat)

/- `Ipv6Addr` displays eight groups and shortens the first of the longest runs of zero
groups, when it has two groups or more. -/

def groupsText (groups : List Nat) : String := ":".intercalate (groups.map (hexDigits 1))

/-- Start and length of the run; `current` is the run that ends in front of group `i`. -/
def longestZeros : List Nat → Nat → Nat → Nat × Nat → Nat × Nat
  | [], _, _, best => best
  | g :: groups, i, current, best =>
    if g = 0 then
      let current := current + 1
      longestZeros groups (i + 1) current
        (if best.2 < current then (i + 1 - current, current) else best)
    else longestZeros groups (i + 1) 0 best

def ipv6Text (bytes : Bytes) : String :=
  let groups := (List.range 8).map fun i => beAt bytes (2 * i) 2
  if beAt bytes 0 10 = 0 ∧ beAt bytes 10 2 = 0xffff then "::ffff:" ++ dotted (span bytes 12 16)
  else
    let (start, len) := longestZeros groups 0 0 (0, 0)
    if 1 < len then groupsText (groups.take start) ++ "::" ++ groupsText (groups.drop (start + len))
    else groupsText groups

/- UTF-8 as `str::from_utf8` and `String::from_utf8_lossy` read it. -/

/-- One step: the character in front, or nothing for an ill-formed sequence, and the number
of octets it takes. -/
def utf8Step (b : UInt8) (rest : Bytes) : Option Char × Nat :=
  let cont (i lo hi : Nat) : Option Nat :=
    match rest[i]? with
    | some c => if lo ≤ c.toNat ∧ c.toNat ≤ hi then some (c.toNat % 64) else none
    | none => none
  let n := b.toNat
  if n < 0x80 then (some (Char.ofNat n), 1)
  else if 0xc2 ≤ n ∧ n ≤ 0xdf then
    match cont 0 0x80 0xbf with
    | some c => (some (Char.ofNat (n % 32 * 64 + c)), 2)
    | none => (none, 1)
  else if 0xe0 ≤ n ∧ n ≤ 0xef then
    match cont 0 (if n = 0xe0 then 0xa0 else 0x80) (if n = 0xed then 0x9f else 0xbf) with
    | none => (none, 1)
    | some c =>
      match cont 1 0x80 0xbf with
      | none => (none, 2)
      | some d => (some (Char.ofNat (n % 16 * 4096 + c * 64 + d)), 3)
  else if 0xf0 ≤ n ∧ n ≤ 0xf4 then
    match cont 0 (if n = 0xf0 then 0x90 else 0x80) (if n = 0xf4 then 0x8f else 0xbf) with
    | none => (none, 1)
    | some c =>
      match cont 1 0x80 0xbf with
      | none => (none, 2)
      | some d =>
        match cont 2 0x80 0xbf with
        | none => (none, 3)
        | some e => (some (Char.ofNat (n % 8 * 262144 + c * 4096 + d * 64 + e)), 4)
  else (none, 1)

/-- Characters and ill-formed sequences from left to right. `skip` octets in front belong to
the step before. -/
def utf8Steps : Bytes → Nat → List (Option Char)
  | [], _ => []
  | _ :: rest, skip + 1 => utf8Steps rest skip
  | b :: rest, 0 => (utf8Step b rest).1 :: utf8Steps rest ((utf8Step b rest).2 - 1)

def fromUtf8 (bytes : Bytes) : Option String :=
  ((utf8Steps bytes 0).mapM id).map String.ofList

def fromUtf8Lossy (bytes : Bytes) : String :=
  String.ofList ((utf8Steps bytes 0).map fun c => c.getD (Char.ofNat 0xfffd))

/- Words of a text. -/

/-- The characters with the property `White_Space`. -/
def isWhitespace (c : Char) : Bool :=
  let n := c.toNat
  (9 ≤ n && n ≤ 13) || n == 0x20 || n == 0x85 || n == 0xa0 || n == 0x1680 ||
    (0x2000 ≤ n && n ≤ 0x200a) || n == 0x2028 || n == 0x2029 || n == 0x202f || n == 0x205f ||
    n == 0x3000

def splitWhitespace (text : String) : List String :=
  ((text.toList.splitOnP isWhitespace).filter fun word => !word.isEmpty).map String.ofList

def stripPrefix (text start : String) : Option String :=
  if start.toList.isPrefixOf text.toList then
    some (String.ofList (text.toList.drop start.toList.length))
  else none

def hasPrefix (text start : String) : Bool := start.toList.isPrefixOf text.toList

def hasText (text part : String) : Bool := text.toList.tails.any part.toList.isPrefixOf

/-- `u16::from_str`: decimal digits, with a plus sign allowed in front. -/
def parseU16 (text : String) : Option Nat :=
  let digits := if hasPrefix text "+" then text.toList.drop 1 else text.toList
  if digits ≠ [] ∧ digits.all (·.isDigit) then
    let n := Nat.ofDigitChars 10 digits 0
    if n < 2 ^ 16 then some n else none
  else none

/-- The text up to the first line end, or nothing for the empty text. -/
def firstLine (text : String) : Option String :=
  if text.toList = [] then none
  else
    let line := text.toList.takeWhile (· ≠ '\n')
    let ended := line.length < text.toList.length
    some (String.ofList (if ended ∧ line.getLast? = some '\r' then line.dropLast else line))

/- The characters of a text. -/

theorem toList_toString (n : Nat) : (toString n).toList = Nat.toDigits 10 n :=
  String.toList_ofList

theorem digits_all {n : Nat} : ∀ c ∈ Nat.toDigits 10 n, c.isDigit = true := fun _ member =>
  Nat.isDigit_of_mem_toDigits (by decide) (by decide) member

theorem digits_outside {n : Nat} {c : Char} (other : c.isDigit = false) :
    c ∉ Nat.toDigits 10 n := fun member =>
  Bool.false_ne_true (other.symm.trans (digits_all c member))

theorem isDigit_of_mem_toString {n : Nat} {c : Char} (member : c ∈ (toString n).toList) :
    c.isDigit = true := by
  rw [toList_toString] at member
  exact digits_all c member

theorem outside_toString {n : Nat} {c : Char} (other : c.isDigit = false) :
    c ∉ (toString n).toList := by
  rw [toList_toString]
  exact digits_outside other

/- Parts of a text. -/

theorem stripPrefix_append (start rest : String) : stripPrefix (start ++ rest) start = some rest := by
  rw [stripPrefix, String.toList_append, if_pos (List.isPrefixOf_iff_prefix.mpr
    (List.prefix_append _ _)), List.drop_left, String.ofList_toList]

theorem stripPrefix_eq_some {text start rest : String} (found : stripPrefix text start = some rest) :
    text = start ++ rest := by
  rw [stripPrefix] at found
  split at found
  · next begins =>
    obtain ⟨more, whole⟩ := List.isPrefixOf_iff_prefix.mp begins
    cases found
    rw [← whole, List.drop_left, ← String.toList_inj, ← whole, String.toList_append,
      String.toList_ofList]
  · cases found

theorem hasText_iff {text part : String} :
    hasText text part = true ↔ part.toList <:+: text.toList := by
  simp only [hasText, List.any_eq_true, List.mem_tails, List.isPrefixOf_iff_prefix]
  rw [List.infix_iff_prefix_suffix]
  exact exists_congr fun t => and_comm

/- Texts of parts with a mark between them. -/

section

variable {mark : String} {parts : List String} {c : Char}

theorem mem_intercalate (member : c ∈ (mark.intercalate parts).toList) :
    c ∈ mark.toList ∨ ∃ part ∈ parts, c ∈ part.toList := by
  rw [String.toList_intercalate] at member
  induction parts with
  | nil => cases member
  | cons part parts ih =>
    cases parts with
    | nil => exact .inr ⟨part, List.mem_cons_self, by simpa using member⟩
    | cons next parts =>
      simp only [List.map_cons, List.intercalate_cons_cons, List.mem_append] at member
      rcases member with (here | between) | later
      · exact .inr ⟨part, List.mem_cons_self, here⟩
      · exact .inl between
      · rcases ih later with inside | ⟨other, listed, inside⟩
        · exact .inl inside
        · exact .inr ⟨other, List.mem_cons_of_mem _ listed, inside⟩

theorem length_le_count_intercalate (parts : List String) (member : c ∈ mark.toList) :
    parts.length ≤ (mark.intercalate parts).toList.count c + 1 := by
  rw [String.toList_intercalate]
  induction parts with
  | nil => simp
  | cons part parts ih =>
    cases parts with
    | nil => simp
    | cons next parts =>
      have between := List.count_pos_iff.mpr member
      simp only [List.map_cons, List.intercalate_cons_cons, List.count_append,
        List.length_cons] at ih ⊢
      omega

theorem mark_mem_intercalate (several : 2 ≤ parts.length) (member : c ∈ mark.toList) :
    c ∈ (mark.intercalate parts).toList := by
  have counted := length_le_count_intercalate parts member
  exact List.count_pos_iff.mp (by omega)

end

end BitBeak
