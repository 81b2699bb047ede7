import BitBeak.Dissect.Dissection
import BitBeak.Dissect.Text

/-! Expert notes: HTTP error statuses and wrong IPv4 header checksums. -/
namespace BitBeak
open Wire

inductive ExpertSeverity where
  | comment
  | note
  | warn
  | error
  deriving DecidableEq, Repr

structure ExpertInfo where
  severity : ExpertSeverity
  group : String
  message : String
  deriving DecidableEq, Repr

/-- The status of an info text such as `HTTP 404 Not Found`. -/
def extractHttpStatus (info : String) : Option Nat :=
  match splitWhitespace info with
  | first :: second :: _ => if first = "HTTP" then parseU16 second else none
  | _ => none

def findIpv4Offset (data : Bytes) (linkType : LinkType) : Except Fault (Option Nat) := do
  match linkType with
  | .ethernet =>
    if data.length < 14 then return none
    else
      let et ← readBE data 12 2
      if et = 0x8100 ∧ 18 ≤ data.length then
        return if (← readBE data 16 2) = 0x0800 then some 18 else none
      else return if et = 0x0800 then some 14 else none
  | .linuxSll =>
    if 16 ≤ data.length then return if (← readBE data 14 2) = 0x0800 then some 16 else none
    else return none
  | .null => return if 4 ≤ data.length then some 4 else none
  | .raw => return some 0
  | _ => return none

/-- The words of the header from `i` on, the checksum's own word counted as zero. -/
def sumWords (hdr : Bytes) : Nat → Nat → Nat → Except Fault Nat
  | 0, _, _ => .error .outOfFuel
  | fuel + 1, i, sum => do
    if i < hdr.length then
      if i = 10 then sumWords hdr fuel (i + 2) sum
      else if i + 1 < hdr.length then sumWords hdr fuel (i + 2) (sum + (← readBE hdr i 2))
      else sumWords hdr fuel (i + 2) (sum + (← byteAt hdr i).toNat * 256)
    else return sum

/-- Carries are added back until none is left. -/
def foldCarries : Nat → Nat → Except Fault Nat
  | 0, _ => .error .outOfFuel
  | fuel + 1, sum =>
    if sum / 2 ^ 16 ≠ 0 then foldCarries fuel (sum % 2 ^ 16 + sum / 2 ^ 16) else .ok sum

def ipv4Checksum (hdr : Bytes) : Except Fault Nat := do
  let sum ← sumWords hdr (hdr.length + 1) 0 0
  return 2 ^ 16 - 1 - (← foldCarries (sum + 1) sum)

def httpExpert (flags : ProtocolFlags) (summary : PacketSummary) : List ExpertInfo :=
  if flags.http then
    match extractHttpStatus summary.info with
    | some code =>
      if 400 ≤ code then
        [{ severity := if 500 ≤ code then .error else .warn, group := "HTTP",
           message := s!"HTTP status {code}" }]
      else []
    | none => []
  else []

def checksumExpert (data : Bytes) (ipOff : Nat) : Except Fault (List ExpertInfo) := do
  if ipOff + 20 ≤ data.length then
    let ihl := ((← byteAt data ipOff) &&& 0x0f).toNat * 4
    if 20 ≤ ihl ∧ ipOff + ihl ≤ data.length then
      let expected ← ipv4Checksum (← slice data ipOff (ipOff + ihl))
      let actual ← readBE data (ipOff + 10) 2
      if expected ≠ actual ∧ actual ≠ 0 then
        return [{ severity := .error, group := "Checksum",
                  message := "IPv4 checksum bad (got 0x" ++ hexDigits 4 actual ++ ", expected 0x" ++
                    hexDigits 4 expected ++ ")" }]
      else return []
    else return []
  else return []

def collectExpert (data : Bytes) (linkType : LinkType) (flags : ProtocolFlags)
    (summary : PacketSummary) : Except Fault (List ExpertInfo) := do
  match ← findIpv4Offset data linkType with
  | some ipOff => return httpExpert flags summary ++ (← checksumExpert data ipOff)
  | none => return httpExpert flags summary

theorem sumWords_ok {hdr : Bytes} {fuel : Nat} (i sum : Nat) (enough : hdr.length < i + fuel)
    (started : 0 < fuel) : ∃ total, sumWords hdr fuel i sum = .ok total := by
  induction fuel generalizing i sum with
  | zero => omega
  | succ fuel ih =>
    unfold sumWords
    split
    · split
      · exact ih _ _ (by omega) (by omega)
      · split
        · rw [readBE_ok (by omega), ok_bind]
          exact ih _ _ (by omega) (by omega)
        · rw [byteAt_ok (by omega), ok_bind]
          exact ih _ _ (by omega) (by omega)
    · exact ⟨sum, rfl⟩

theorem foldCarries_ok {fuel sum : Nat} (enough : sum < fuel) :
    ∃ folded, foldCarries fuel sum = .ok folded := by
  induction fuel generalizing sum with
  | zero => omega
  | succ fuel ih =>
    unfold foldCarries
    split
    · next carry =>
      -- a carry of `c` takes `2 ^ 16 * c` away and gives `c` back
      exact ih (by omega)
    · exact ⟨sum, rfl⟩

theorem ipv4Checksum_ok (hdr : Bytes) : ∃ sum, ipv4Checksum hdr = .ok sum := by
  obtain ⟨total, summed⟩ := sumWords_ok 0 0
    (by omega : hdr.length < 0 + (hdr.length + 1)) (by omega)
  obtain ⟨folded, known⟩ := foldCarries_ok (Nat.lt_succ_self total)
  refine ⟨2 ^ 16 - 1 - folded, ?_⟩
  rw [ipv4Checksum, summed, ok_bind, known]
  rfl

theorem findIpv4Offset_ok (data : Bytes) (linkType : LinkType) :
    ∃ found, findIpv4Offset data linkType = .ok found := by
  unfold findIpv4Offset
  split
  · split
    · exact ⟨none, rfl⟩
    · rw [readBE_ok (by omega), ok_bind]
      split
      · rw [readBE_ok (by omega)]
        exact ⟨_, rfl⟩
      · exact ⟨_, rfl⟩
  · split
    · rw [readBE_ok (by omega)]
      exact ⟨_, rfl⟩
    · exact ⟨_, rfl⟩
  · exact ⟨_, rfl⟩
  · exact ⟨_, rfl⟩
  · exact ⟨_, rfl⟩

theorem checksumExpert_ok (data : Bytes) (ipOff : Nat) :
    ∃ notes, checksumExpert data ipOff = .ok notes := by
  unfold checksumExpert
  split
  · rw [byteAt_ok (by omega), ok_bind]
    dsimp only
    split
    · rw [slice_ok (by omega) (by omega), ok_bind, readBE_ok (by omega)]
      obtain ⟨expected, known⟩ := ipv4Checksum_ok
        (span data ipOff (ipOff + (octet data ipOff &&& 0x0f).toNat * 4))
      rw [known, ok_bind, ok_bind]
      split
      · exact ⟨_, rfl⟩
      · exact ⟨_, rfl⟩
    · exact ⟨_, rfl⟩
  · exact ⟨_, rfl⟩

/-- Expert notes are collected from every frame. -/
theorem collectExpert_ok (data : Bytes) (linkType : LinkType) (flags : ProtocolFlags)
    (summary : PacketSummary) : ∃ notes, collectExpert data linkType flags summary = .ok notes := by
  obtain ⟨found, known⟩ := findIpv4Offset_ok data linkType
  unfold collectExpert
  rw [known, ok_bind]
  cases found with
  | none => exact ⟨_, rfl⟩
  | some ipOff =>
    obtain ⟨notes, known⟩ := checksumExpert_ok data ipOff
    dsimp only
    rw [known]
    exact ⟨_, rfl⟩

end BitBeak
