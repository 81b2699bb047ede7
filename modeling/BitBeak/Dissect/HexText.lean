import BitBeak.Dissect.HttpObjects
import BitBeak.Dissect.KeyLog
import BitBeak.Frame.Filter

/-! Which texts are read as hexadecimal, and the secrets of a key log file that are. Octets are
read in pairs as numbers, so that a sign is taken for a digit and a pair may cut a character. -/
namespace BitBeak
open Wire

/-- An even number of hexadecimal digits. -/
def HexText (s : String) : Prop :=
  s.toList.length % 2 = 0 ∧ s.toList.all (fun c => (hexDigit? c).isSome) = true

instance (s : String) : Decidable (HexText s) := inferInstanceAs (Decidable (_ ∧ _))

/-- The octets that pairs of digits stand for. -/
def hexValue : List Char → Bytes
  | c :: d :: rest =>
    UInt8.ofNat ((hexDigit? c).getD 0 * 16 + (hexDigit? d).getD 0) :: hexValue rest
  | _ => []

/-- The octets of a text that is hexadecimal between its blanks. -/
def exactBytes (s : String) : Option Bytes :=
  if HexText (trim s) then some (hexValue (trim s).toList) else none

/-- A text is read as the octets it stands for, and refused where it stands for none. -/
def DecodesExactly (s : String) : Prop := hexDecode s = .ok (exactBytes s)

/- Texts that are not read so. -/

/-- Two characters that are read as a number. -/
def ReadPair (p : Char × Char) : Prop :=
  ((hexDigit? p.1).isSome = true ∨ p.1 = '+') ∧ (hexDigit? p.2).isSome = true

def flatPairs (pairs : List (Char × Char)) : List Char := pairs.flatMap fun p => [p.1, p.2]

/-- Pairs that are all read, one of them for its sign. -/
def Signed (t : List Char) : Prop :=
  ∃ pairs, t = flatPairs pairs ∧ (∀ p ∈ pairs, ReadPair p) ∧ ∃ p ∈ pairs, p.1 = '+'

/-- The first two octets end inside a character. -/
def CutsFirst : List Char → Prop
  | [] => False
  | c :: rest => 2 < c.utf8Size ∨ c.utf8Size = 1 ∧ ∃ d ∈ rest.head?, 1 < d.utf8Size

/-- Behind pairs that are all read, two octets end inside a character. -/
def CutsCharacter (t : List Char) : Prop :=
  ∃ pairs rest, t = flatPairs pairs ++ rest ∧ (∀ p ∈ pairs, ReadPair p) ∧ CutsFirst rest

/-- A text of an even number of octets that is refused for no reason, or read for one. -/
def Doubtful (s : String) : Prop :=
  (trim s).utf8ByteSize % 2 = 0 ∧ (Signed (trim s).toList ∨ CutsCharacter (trim s).toList)

/- Digits and pairs. -/

theorem size_of_hexDigit {c : Char} (digit : (hexDigit? c).isSome = true) : c.utf8Size = 1 := by
  rw [Char.utf8Size_eq_one_iff, UInt32.le_iff_toNat_le]
  show c.toNat ≤ 127
  unfold hexDigit? at digit
  dsimp only at digit
  split at digit
  · omega
  · split at digit
    · omega
    · split at digit
      · omega
      · cases digit

theorem hexDigit_plus : hexDigit? '+' = none := by decide

theorem hexPair_isSome {c d : Char} : (hexPair c d).isSome = true ↔ ReadPair (c, d) := by
  unfold hexPair ReadPair
  by_cases plus : c = '+'
  · cases low : hexDigit? d <;> simp [plus, bind, Option.bind]
  · cases low : hexDigit? d <;> cases high : hexDigit? c <;> simp [plus, bind, Option.bind]

theorem ReadPair.sizes {c d : Char} (read : ReadPair (c, d)) :
    c.utf8Size = 1 ∧ d.utf8Size = 1 := by
  refine ⟨?_, size_of_hexDigit read.2⟩
  rcases read.1 with digit | plus
  · exact size_of_hexDigit digit
  · have sign : c = '+' := plus
    rw [sign]
    decide

/-- Pairs that are all read. -/
def AllRead (t : List Char) : Prop := ∃ pairs, t = flatPairs pairs ∧ ∀ p ∈ pairs, ReadPair p

theorem allRead_cons {c d : Char} {rest : List Char} :
    AllRead (c :: d :: rest) ↔ ReadPair (c, d) ∧ AllRead rest := by
  constructor
  · rintro ⟨pairs, same, read⟩
    cases pairs with
    | nil => cases same
    | cons p pairs =>
      cases same
      exact ⟨read p List.mem_cons_self, pairs, rfl, fun q member =>
        read q (List.mem_cons_of_mem p member)⟩
  · rintro ⟨first, pairs, rfl, read⟩
    refine ⟨(c, d) :: pairs, rfl, fun q member => ?_⟩
    rcases List.mem_cons.mp member with rfl | member
    · exact first
    · exact read q member

theorem not_allRead_single (c : Char) : ¬ AllRead [c] := by
  rintro ⟨pairs, same, _⟩
  cases pairs with
  | nil => cases same
  | cons p pairs => cases same

theorem cuts_of_first {t : List Char} (first : CutsFirst t) : CutsCharacter t :=
  ⟨[], t, rfl, fun _ none => absurd none List.not_mem_nil, first⟩

theorem cuts_cases {t : List Char} (cuts : CutsCharacter t) : CutsFirst t ∨
    ∃ c d rest, t = c :: d :: rest ∧ ReadPair (c, d) ∧ CutsCharacter rest := by
  obtain ⟨pairs, rest, rfl, read, first⟩ := cuts
  cases pairs with
  | nil => exact .inl first
  | cons p pairs =>
    exact .inr ⟨p.1, p.2, flatPairs pairs ++ rest, rfl, read p List.mem_cons_self, pairs, rest, rfl,
      fun q member => read q (List.mem_cons_of_mem p member), first⟩

theorem cuts_behind {c d : Char} {rest : List Char} (read : ReadPair (c, d))
    (cuts : CutsCharacter rest) : CutsCharacter (c :: d :: rest) := by
  obtain ⟨pairs, behind, rfl, all, first⟩ := cuts
  refine ⟨(c, d) :: pairs, behind, rfl, fun q member => ?_, first⟩
  rcases List.mem_cons.mp member with rfl | member
  · exact read
  · exact all q member

theorem cuts_cons {c d : Char} {rest : List Char} (one : c.utf8Size = 1)
    (next : d.utf8Size = 1) :
    CutsCharacter (c :: d :: rest) ↔ ReadPair (c, d) ∧ CutsCharacter rest := by
  constructor
  · intro cuts
    rcases cuts_cases cuts with first | ⟨_, _, _, same, read, behind⟩
    · simp [CutsFirst, one, next] at first
    · cases same
      exact ⟨read, behind⟩
  · rintro ⟨read, behind⟩
    exact cuts_behind read behind

/-- Pairs are read to their end, or up to the first that is no number, or up to the first that
cuts a character. -/
theorem hexPairs_cases (t : List Char) :
    (hexPairs t = .error .outOfRange ∧ CutsCharacter t ∧ ¬ AllRead t) ∨
      (hexPairs t = .ok none ∧ ¬ CutsCharacter t ∧ ¬ AllRead t) ∨
      (∃ v, hexPairs t = .ok (some v)) ∧ ¬ CutsCharacter t ∧ AllRead t := by
  induction t using hexPairs.induct with
  | case1 =>
    refine .inr (.inr ⟨⟨[], rfl⟩, fun cuts => ?_, [], rfl, by simp⟩)
    rcases cuts_cases cuts with none | ⟨_, _, _, same, _⟩
    · exact none
    · cases same
  | case2 c small =>
    refine .inr (.inl ⟨by rw [hexPairs, if_pos small]; rfl, fun cuts => ?_, not_allRead_single c⟩)
    rcases cuts_cases cuts with first | ⟨_, _, _, same, _⟩
    · rcases first with large | ⟨_, _, none, _⟩
      · omega
      · cases none
    · cases same
  | case3 c large =>
    refine .inl ⟨by rw [hexPairs, if_neg large], cuts_of_first (.inl ?_), not_allRead_single c⟩
    omega
  | case4 c d rest two =>
    refine .inr (.inl ⟨by rw [hexPairs, if_pos two]; rfl, fun cuts => ?_, fun all => ?_⟩)
    · rcases cuts_cases cuts with first | ⟨_, _, _, same, read, _⟩
      · rcases first with large | ⟨one, _⟩ <;> omega
      · cases same
        have one := read.sizes.1
        omega
    · have one := (allRead_cons.mp all).1.sizes.1
      omega
  | case5 c d rest two cut =>
    have positive := c.utf8Size_pos
    refine .inl ⟨by rw [hexPairs, if_neg two, if_pos cut], cuts_of_first ?_, fun all => ?_⟩
    · by_cases large : 2 < c.utf8Size
      · exact .inl large
      · exact .inr ⟨by omega, d, rfl, cut.resolve_left large⟩
    · have sizes := (allRead_cons.mp all).1.sizes
      omega
  | case6 c d rest two cut refused =>
    have first := c.utf8Size_pos
    have second := d.utf8Size_pos
    have unread : ¬ ReadPair (c, d) := by
      rw [← hexPair_isSome, refused]
      exact Bool.false_ne_true
    refine .inr (.inl ⟨by rw [hexPairs, if_neg two, if_neg cut, refused]; rfl, fun cuts => ?_,
      fun all => unread (allRead_cons.mp all).1⟩)
    exact unread ((cuts_cons (by omega) (by omega)).mp cuts).1
  | case7 c d rest two cut b read ih =>
    have first := c.utf8Size_pos
    have second := d.utf8Size_pos
    have pair : ReadPair (c, d) := hexPair_isSome.mp (by rw [read]; rfl)
    rw [cuts_cons (by omega) (by omega), allRead_cons, hexPairs, if_neg two, if_neg cut, read]
    simp only [pair, true_and]
    rcases ih with ⟨fault, cuts, all⟩ | ⟨none, cuts, all⟩ | ⟨⟨v, some⟩, cuts, all⟩
    · exact .inl ⟨by rw [fault]; rfl, cuts, all⟩
    · exact .inr (.inl ⟨by rw [none]; rfl, cuts, all⟩)
    · exact .inr (.inr ⟨⟨b :: v, by rw [some]; rfl⟩, cuts, all⟩)

/-- An even number of digits is read as the octets it stands for. -/
theorem hexPairs_digits : ∀ t : List Char, t.length % 2 = 0 →
    t.all (fun c => (hexDigit? c).isSome) = true → hexPairs t = .ok (some (hexValue t))
  | [], _, _ => rfl
  | [c], odd, _ => by simp at odd
  | c :: d :: rest, even, digits => by
    simp only [List.all_cons, Bool.and_eq_true] at digits
    obtain ⟨high, low, behind⟩ := digits
    have ih := hexPairs_digits rest (by simp only [List.length_cons] at even; omega) behind
    have sign : c ≠ '+' := by
      rintro rfl
      simp [hexDigit_plus] at high
    have one := size_of_hexDigit high
    have next := size_of_hexDigit low
    obtain ⟨m, highDigit⟩ := Option.isSome_iff_exists.mp high
    obtain ⟨n, lowDigit⟩ := Option.isSome_iff_exists.mp low
    rw [hexPairs, if_neg (by omega), if_neg (by omega), ih, hexValue, highDigit, lowDigit]
    simp [hexPair, highDigit, lowDigit, sign, bind, Option.bind, Except.bind, pure, Except.pure]

/-- Pairs that are all read are all digits, or one has a sign. -/
theorem signed_or_digits : ∀ t : List Char, AllRead t → Signed t ∨
    t.length % 2 = 0 ∧ t.all (fun c => (hexDigit? c).isSome) = true := by
  rintro t ⟨pairs, rfl, read⟩
  by_cases sign : ∃ p ∈ pairs, p.1 = '+'
  · exact .inl ⟨pairs, rfl, read, sign⟩
  · right
    constructor
    · simp [flatPairs, Nat.mul_mod_left]
    · rw [List.all_eq_true]
      intro c member
      obtain ⟨p, inside, here⟩ := List.mem_flatMap.mp member
      have pair := read p inside
      rcases List.mem_cons.mp here with rfl | last
      · exact pair.1.resolve_right fun plus => sign ⟨p, inside, plus⟩
      · rw [List.mem_singleton.mp last]
        exact pair.2

theorem Signed.allRead {t : List Char} (signed : Signed t) : AllRead t := by
  obtain ⟨pairs, same, read, _⟩ := signed
  exact ⟨pairs, same, read⟩

theorem Signed.not_digits {t : List Char} (signed : Signed t) :
    ¬ t.all (fun c => (hexDigit? c).isSome) = true := by
  obtain ⟨pairs, rfl, _, p, inside, plus⟩ := signed
  intro digits
  have digit := List.all_eq_true.mp digits '+'
    (List.mem_flatMap.mpr ⟨p, inside, by rw [plus]; exact List.mem_cons_self⟩)
  simp [hexDigit_plus] at digit

theorem utf8ByteSize_ofList {l : List Char} (one : ∀ c ∈ l, c.utf8Size = 1) :
    (String.ofList l).utf8ByteSize = l.length := by
  induction l with
  | nil => rfl
  | cons c l ih =>
    have front : String.ofList (c :: l) = String.singleton c ++ String.ofList l := by
      rw [← String.toList_inj]
      simp
    rw [front, String.utf8ByteSize_append, String.utf8ByteSize_singleton, one c List.mem_cons_self,
      ih fun d member => one d (List.mem_cons_of_mem c member), List.length_cons, Nat.add_comm]

theorem hexText_even {s : String} (hex : HexText s) : s.utf8ByteSize % 2 = 0 := by
  have length := utf8ByteSize_ofList fun c member =>
    size_of_hexDigit (List.all_eq_true.mp hex.2 c member)
  rw [String.ofList_toList] at length
  rw [length]
  exact hex.1

/-- A text is read as it should be unless it is doubtful. -/
theorem decodesExactly_iff (s : String) : DecodesExactly s ↔ ¬ Doubtful s := by
  unfold DecodesExactly hexDecode Doubtful
  by_cases even : (trim s).utf8ByteSize % 2 = 0
  · simp only [even, ne_eq, not_true_eq_false, if_false, true_and]
    rcases hexPairs_cases (trim s).toList with
      ⟨fault, cuts, _⟩ | ⟨none, cuts, all⟩ | ⟨⟨v, some⟩, cuts, all⟩
    · simp [fault, cuts]
    · have other : ¬ HexText (trim s) := by
        intro hex
        rw [hexPairs_digits _ hex.1 hex.2] at none
        cases none
      have unsigned : ¬ Signed (trim s).toList := fun signed => all signed.allRead
      simp [none, cuts, unsigned, exactBytes, other]
    · by_cases hex : HexText (trim s)
      · have unsigned : ¬ Signed (trim s).toList := fun signed => signed.not_digits hex.2
        simp [hexPairs_digits _ hex.1 hex.2, cuts, unsigned, exactBytes, hex]
      · have signed := (signed_or_digits _ all).resolve_right hex
        simp [some, signed, exactBytes, hex]
  · have other : ¬ HexText (trim s) := fun hex => even (hexText_even hex)
    simp [even, exactBytes, other, pure, Except.pure]

/- Octets written and read again. -/

theorem hexDigit_visible {c : Char} (digit : (hexDigit? c).isSome = true) :
    isWhitespace c = false := by
  unfold hexDigit? at digit
  dsimp only at digit
  have ranges : 0x30 ≤ c.toNat ∧ c.toNat ≤ 0x66 := by
    split at digit
    · omega
    · split at digit
      · omega
      · split at digit
        · omega
        · cases digit
  unfold isWhitespace
  simp only [Bool.or_eq_false_iff, Bool.and_eq_false_iff, decide_eq_false_iff_not, beq_eq_false_iff_ne]
  omega

theorem trim_hexText {s : String} (hex : HexText s) : trim s = s := by
  have visible : ∀ c ∈ s.toList, isWhitespace c = false := fun c member =>
    hexDigit_visible (List.all_eq_true.mp hex.2 c member)
  have front : s.toList.dropWhile isWhitespace = s.toList := by
    rw [List.dropWhile_eq_self_iff]
    intro some
    rw [visible _ (List.getElem_mem some)]
    exact Bool.false_ne_true
  have back : s.toList.rdropWhile isWhitespace = s.toList := by
    rw [List.rdropWhile_eq_self_iff]
    intro some
    rw [visible _ (List.getLast_mem some)]
    exact Bool.false_ne_true
  rw [trim, front, back, String.ofList_toList]

theorem exactBytes_hexText {s : String} (hex : HexText s) :
    exactBytes s = some (hexValue s.toList) := by
  rw [exactBytes, trim_hexText hex, if_pos hex]

/-- The digits of a text are no doubtful text. -/
theorem HexText.not_doubtful {s : String} (hex : HexText s) : ¬ Doubtful s := by
  rw [← decodesExactly_iff, DecodesExactly, exactBytes_hexText hex, hexDecode, trim_hexText hex]
  simp [hexText_even hex, hexPairs_digits _ hex.1 hex.2]

theorem hexDigit_digitChar : ∀ n < 16, hexDigit? (Nat.digitChar n) = some n := by decide

theorem hexBytes_toList (bytes : Bytes) : (hexBytes bytes).toList =
    bytes.flatMap fun b => [Nat.digitChar (b.toNat / 16), Nat.digitChar (b.toNat % 16)] := by
  rw [hexBytes, String.toList_join, List.flatMap_map]
  simp only [hexDigits_two]

theorem hexText_hexBytes (bytes : Bytes) : HexText (hexBytes bytes) := by
  unfold HexText
  rw [hexBytes_toList]
  constructor
  · simp [Nat.mul_mod_left]
  · rw [List.all_eq_true]
    intro c member
    obtain ⟨b, _, here⟩ := List.mem_flatMap.mp member
    have bound := b.toNat_lt
    rcases List.mem_cons.mp here with rfl | last
    · rw [hexDigit_digitChar _ (by omega)]
      rfl
    · rw [List.mem_singleton.mp last, hexDigit_digitChar _ (by omega)]
      rfl

theorem hexValue_hexBytes (bytes : Bytes) : hexValue (hexBytes bytes).toList = bytes := by
  rw [hexBytes_toList]
  induction bytes with
  | nil => rfl
  | cons b bytes ih =>
    have bound := b.toNat_lt
    rw [List.flatMap_cons, List.cons_append, List.cons_append, List.nil_append, hexValue, ih,
      hexDigit_digitChar _ (by omega), hexDigit_digitChar _ (by omega), Option.getD_some,
      Option.getD_some, show b.toNat / 16 * 16 + b.toNat % 16 = b.toNat by omega,
      UInt8.ofNat_toNat]

/-- Octets that are written in hexadecimal are read as they were. -/
theorem hexDecode_hexBytes (bytes : Bytes) : hexDecode (hexBytes bytes) = .ok (some bytes) := by
  have hex := hexText_hexBytes bytes
  have read : hexDecode (hexBytes bytes) = .ok (exactBytes (hexBytes bytes)) :=
    (decodesExactly_iff _).mpr hex.not_doubtful
  rw [read, exactBytes_hexText hex, hexValue_hexBytes]

/- The key log file. -/

/-- `str::to_lowercase`. What a letter beyond ASCII becomes is a parameter. -/
def toLowercase (other : Char → List Char) (s : String) : String :=
  String.ofList (s.toList.flatMap fun c => if c.toNat < 128 then [c.toLower] else other c)

/-- A label, the client random and the secret of a line. -/
abbrev KeyLogEntry := String × String × String

namespace KeyLog

def trafficLabels : List String :=
  ["CLIENT_HANDSHAKE_TRAFFIC_SECRET", "SERVER_HANDSHAKE_TRAFFIC_SECRET", "CLIENT_TRAFFIC_SECRET_0",
    "SERVER_TRAFFIC_SECRET_0", "EXPORTER_SECRET", "EARLY_EXPORTER_SECRET",
    "CLIENT_EARLY_TRAFFIC_SECRET"]

def putKey {α : Type} (key : String) (value : α) (map : List (String × α)) : List (String × α) :=
  (key, value) :: map.filter fun e => e.1 ≠ key

def entryOf (other : Char → List Char) (line : String) : Option KeyLogEntry :=
  let line := trim line
  if line.isEmpty ∨ line.toList.head? = some '#' then none
  else
    match splitWhitespace line with
    | label :: cr :: secret :: _ => some (label, toLowercase other cr, toLowercase other secret)
    | _ => none

def addEntry (keylog : KeyLog) (entry : KeyLogEntry) : KeyLog :=
  let (label, cr, secret) := entry
  if label = "CLIENT_RANDOM" then
    { keylog with clientRandom := putKey cr secret keylog.clientRandom }
  else if label ∈ trafficLabels then
    let held := (keylog.trafficSecrets.lookup cr).getD []
    { keylog with trafficSecrets := putKey cr (held ++ [(label, secret)]) keylog.trafficSecrets }
  else keylog

def entries (other : Char → List Char) (text : String) : List KeyLogEntry :=
  (textLines text.toList).filterMap fun line => entryOf other (String.ofList line)

def parse (other : Char → List Char) (text : String) : KeyLog :=
  (entries other text).foldl addEntry {}

/-- The secret of the last line for a client random. -/
def lastSecret (cr : String) (l : List KeyLogEntry) : Option String :=
  (l.filter fun e => e.1 = "CLIENT_RANDOM" ∧ e.2.1 = cr).getLast?.map fun e => e.2.2

/-- The secret of the first line with a label for a client random. -/
def firstSecret (label cr : String) (l : List KeyLogEntry) : Option String :=
  (l.find? fun e => e.1 = label ∧ e.2.1 = cr).map fun e => e.2.2

theorem lookup_filter {α : Type} {key other : String} (apart : other ≠ key)
    (map : List (String × α)) : (map.filter fun e => e.1 ≠ key).lookup other = map.lookup other := by
  induction map with
  | nil => rfl
  | cons e map ih =>
    obtain ⟨k, v⟩ := e
    rw [List.filter_cons]
    by_cases here : k = key
    · rw [List.lookup_cons, beq_false_of_ne (here ▸ apart)]
      simpa [here] using ih
    · simp only [ne_eq, here, not_false_eq_true, decide_true, if_true, List.lookup_cons, ih]

theorem lookup_putKey {α : Type} (key other : String) (value : α) (map : List (String × α)) :
    (putKey key value map).lookup other = if other = key then some value else map.lookup other := by
  rw [putKey, List.lookup_cons]
  by_cases same : other = key
  · simp [same]
  · rw [lookup_filter same, if_neg same, beq_false_of_ne same]

theorem addEntry_clientRandom (keylog : KeyLog) (e : KeyLogEntry) (cr : String) :
    (keylog.addEntry e).clientRandom.lookup cr =
      if e.1 = "CLIENT_RANDOM" ∧ e.2.1 = cr then some e.2.2 else keylog.clientRandom.lookup cr := by
  obtain ⟨label, random, secret⟩ := e
  unfold addEntry
  by_cases first : label = "CLIENT_RANDOM"
  · simp [first, lookup_putKey, eq_comm]
  · simp only [first, if_false, false_and]
    split <;> rfl

theorem addEntry_trafficSecrets (keylog : KeyLog) (e : KeyLogEntry) (cr : String) :
    ((keylog.addEntry e).trafficSecrets.lookup cr).getD [] =
      (keylog.trafficSecrets.lookup cr).getD [] ++
        if e.1 ∈ trafficLabels ∧ e.2.1 = cr then [(e.1, e.2.2)] else [] := by
  have apart : "CLIENT_RANDOM" ∉ trafficLabels := by decide
  obtain ⟨label, random, secret⟩ := e
  unfold addEntry
  by_cases first : label = "CLIENT_RANDOM"
  · simp [first, apart]
  · by_cases known : label ∈ trafficLabels
    · by_cases here : random = cr
      · simp [first, known, here, lookup_putKey]
      · have away : ¬ cr = random := fun same => here same.symm
        simp [first, known, here, away, lookup_putKey]
    · simp [first, known]

theorem clientRandom_lookup (cr : String) (l : List KeyLogEntry) :
    (l.foldl addEntry {}).clientRandom.lookup cr = lastSecret cr l := by
  induction l using List.reverseRecOn with
  | nil => rfl
  | append_singleton l e ih =>
    rw [List.foldl_append, List.foldl_cons, List.foldl_nil, addEntry_clientRandom, ih, lastSecret,
      lastSecret, List.filter_append]
    by_cases here : e.1 = "CLIENT_RANDOM" ∧ e.2.1 = cr
    · simp [here]
    · rw [if_neg here, List.filter_singleton, decide_eq_false here]
      simp

/-- The secrets that a key log keeps for a client random, in the order of their lines. -/
theorem trafficSecrets_lookup (cr : String) (l : List KeyLogEntry) :
    ((l.foldl addEntry {}).trafficSecrets.lookup cr).getD [] =
      (l.filter fun e => e.1 ∈ trafficLabels ∧ e.2.1 = cr).map fun e => (e.1, e.2.2) := by
  induction l using List.reverseRecOn with
  | nil => rfl
  | append_singleton l e ih =>
    rw [List.foldl_append, List.foldl_cons, List.foldl_nil, addEntry_trafficSecrets, ih,
      List.filter_append, List.map_append]
    by_cases here : e.1 ∈ trafficLabels ∧ e.2.1 = cr
    · simp [here]
    · rw [if_neg here, List.filter_singleton, decide_eq_false here]
      simp

theorem lookup_filter_map {label : String} (known : label ∈ trafficLabels) (cr : String)
    (l : List KeyLogEntry) :
    ((l.filter fun e => e.1 ∈ trafficLabels ∧ e.2.1 = cr).map fun e => (e.1, e.2.2)).lookup label
      = firstSecret label cr l := by
  unfold firstSecret
  induction l with
  | nil => rfl
  | cons e l ih =>
    rw [List.filter_cons, List.find?_cons]
    by_cases here : e.1 = label ∧ e.2.1 = cr
    · simp [here, known]
    · by_cases kept : e.1 ∈ trafficLabels ∧ e.2.1 = cr
      · have other : (label == e.1) = false :=
          beq_false_of_ne fun same => here ⟨same.symm, kept.2⟩
        rw [decide_eq_true kept, if_pos rfl, List.map_cons, List.lookup_cons, other, ih,
          decide_eq_false here]
      · rw [decide_eq_false kept, if_neg Bool.false_ne_true, ih, decide_eq_false here]

theorem trafficSecret_lookup {label : String} (known : label ∈ trafficLabels) (cr : String)
    (l : List KeyLogEntry) :
    (((l.foldl addEntry {}).trafficSecrets.lookup cr).bind fun secrets => secrets.lookup label)
      = firstSecret label cr l := by
  rw [← lookup_filter_map known, ← trafficSecrets_lookup]
  cases (l.foldl addEntry {}).trafficSecrets.lookup cr <;> rfl

end KeyLog

/- What the key log opens. -/

theorem hexDigit_small {c : Char} (digit : (hexDigit? c).isSome = true) : c.toNat < 128 := by
  have one := Char.utf8Size_eq_one_iff.mp (size_of_hexDigit digit)
  exact Nat.lt_succ_of_le (UInt32.le_iff_toNat_le.mp one)

/-- A digit in lower case is the same digit. -/
theorem hexDigit_toLower {c : Char} (digit : (hexDigit? c).isSome = true) :
    hexDigit? c.toLower = hexDigit? c := by
  have all : ∀ n : Fin 128, (hexDigit? (Char.ofNat n)).isSome = true →
      hexDigit? (Char.ofNat n).toLower = hexDigit? (Char.ofNat n) := by decide +kernel
  have here := all ⟨c.toNat, hexDigit_small digit⟩
  rw [Char.ofNat_toNat] at here
  exact here digit

theorem toLowercase_digits (other : Char → List Char) {s : String} (hex : HexText s) :
    (toLowercase other s).toList = s.toList.map Char.toLower := by
  have digits := List.all_eq_true.mp hex.2
  rw [toLowercase, String.toList_ofList]
  generalize s.toList = t at digits
  induction t with
  | nil => rfl
  | cons c t ih =>
    have ascii := hexDigit_small (digits c List.mem_cons_self)
    rw [List.flatMap_cons, if_pos ascii, ih fun d member => digits d (List.mem_cons_of_mem c member)]
    rfl

theorem hexValue_map_toLower : ∀ t : List Char,
    t.all (fun c => (hexDigit? c).isSome) = true → hexValue (t.map Char.toLower) = hexValue t
  | [], _ => rfl
  | [_], _ => rfl
  | c :: d :: rest, digits => by
    simp only [List.all_cons, Bool.and_eq_true] at digits
    obtain ⟨high, low, behind⟩ := digits
    rw [List.map_cons, List.map_cons, hexValue, hexValue, hexValue_map_toLower rest behind,
      hexDigit_toLower high, hexDigit_toLower low]

/-- The lower case of a secret stands for the same octets. -/
theorem exactBytes_toLowercase (other : Char → List Char) {s : String} (hex : HexText s) :
    HexText (toLowercase other s) ∧
      exactBytes (toLowercase other s) = some (hexValue s.toList) := by
  have lower : HexText (toLowercase other s) := by
    unfold HexText
    rw [toLowercase_digits other hex, List.length_map]
    refine ⟨hex.1, ?_⟩
    rw [List.all_map, List.all_eq_true]
    intro c member
    have digit := List.all_eq_true.mp hex.2 c member
    show (hexDigit? c.toLower).isSome = true
    rw [hexDigit_toLower digit]
    exact digit
  refine ⟨lower, ?_⟩
  rw [exactBytes_hexText lower, toLowercase_digits other hex, hexValue_map_toLower _ hex.2]

theorem toAsciiLowercase_hexBytes (bytes : Bytes) :
    toAsciiLowercase (hexBytes bytes) = hexBytes bytes := by
  have digits : ∀ n < 16, (Nat.digitChar n).toLower = Nat.digitChar n := by decide
  rw [← String.toList_inj, toAsciiLowercase, String.toList_ofList, hexBytes_toList,
    List.map_flatMap]
  congr 1
  funext b
  have bound := b.toNat_lt
  rw [List.map_cons, List.map_cons, digits _ (by omega), digits _ (by omega)]
  rfl

/-- A secret that is looked up is read as the octets it stands for. -/
def SecretExact (result : Except Fault (Option Bytes)) (secret : Option String) : Prop :=
  result = .ok (secret.bind exactBytes)

theorem secretExact_iff (secret : Option String) :
    SecretExact (match secret with
      | some secret => hexDecode secret
      | none => .ok none) secret ↔ ∀ s ∈ secret, ¬ Doubtful s := by
  cases secret with
  | none => simp [SecretExact]
  | some s => simpa [SecretExact, DecodesExactly] using decodesExactly_iff s

open KeyLog in
theorem masterSecret_parse (other : Char → List Char) (text : String) (random : Bytes) :
    (parse other text).masterSecret (hexBytes random) =
      match lastSecret (hexBytes random) (entries other text) with
      | some secret => hexDecode secret
      | none => .ok none := by
  rw [KeyLog.masterSecret, toAsciiLowercase_hexBytes, KeyLog.parse, clientRandom_lookup]
  rfl

/-- The label of the application data in a direction. -/
def trafficLabel (fromClient : Bool) : String :=
  if fromClient then "CLIENT_TRAFFIC_SECRET_0" else "SERVER_TRAFFIC_SECRET_0"

open KeyLog in
theorem trafficSecret_parse (other : Char → List Char) (text : String) (random : Bytes)
    (fromClient : Bool) :
    (parse other text).trafficSecret (hexBytes random) fromClient =
      match firstSecret (trafficLabel fromClient) (hexBytes random) (entries other text) with
      | some secret => hexDecode secret
      | none => .ok none := by
  have known : trafficLabel fromClient ∈ trafficLabels := by cases fromClient <;> decide
  rw [KeyLog.trafficSecret, toAsciiLowercase_hexBytes, KeyLog.parse]
  have found := trafficSecret_lookup known (hexBytes random) (entries other text)
  rw [trafficLabel] at found
  rw [found]
  rfl

open KeyLog in
/-- Texts that are not doubtful are read exactly if they are hexadecimal and refused if not, and
so are the secrets of a key log; what is written in hexadecimal is read back, in either case of
the letters. -/
theorem hex_decoded_exactly (other : Char → List Char) (s text : String) (bytes random : Bytes)
    (fromClient : Bool) :
    (DecodesExactly s ↔ ¬ Doubtful s) ∧
      hexDecode (hexBytes bytes) = .ok (some bytes) ∧
      (HexText s → ¬ Doubtful (toLowercase other s) ∧
        exactBytes (toLowercase other s) = some (hexValue s.toList)) ∧
      (SecretExact ((parse other text).masterSecret (hexBytes random))
          (lastSecret (hexBytes random) (entries other text)) ↔
        ∀ secret ∈ lastSecret (hexBytes random) (entries other text), ¬ Doubtful secret) ∧
      (SecretExact ((parse other text).trafficSecret (hexBytes random) fromClient)
          (firstSecret (trafficLabel fromClient) (hexBytes random) (entries other text)) ↔
        ∀ secret ∈ firstSecret (trafficLabel fromClient) (hexBytes random) (entries other text),
          ¬ Doubtful secret) := by
  refine ⟨decodesExactly_iff s, hexDecode_hexBytes bytes, fun hex => ?_, ?_, ?_⟩
  · obtain ⟨lower, octets⟩ := exactBytes_toLowercase other hex
    exact ⟨lower.not_doubtful, octets⟩
  · rw [masterSecret_parse]
    exact secretExact_iff _
  · rw [trafficSecret_parse]
    exact secretExact_iff _

/-- A sign is read as a digit, and a pair cuts a character. -/
theorem doubtful_texts_decoded :
    hexDecode "+f" = .ok (some [0x0f]) ∧ ¬ HexText "+f" ∧ ¬ DecodesExactly "+f" ∧
      hexDecode "0éf" = .error .outOfRange ∧ ¬ DecodesExactly "0éf" ∧
      (KeyLog.parse (fun c => [c]) "CLIENT_RANDOM aa +f").masterSecret "aa"
        = .ok (some [0x0f]) := by
  unfold DecodesExactly
  refine ⟨?_, ?_, ?_, ?_, ?_, ?_⟩ <;> decide +kernel

end BitBeak
