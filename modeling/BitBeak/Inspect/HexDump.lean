import BitBeak.Capture.EndpointText
import BitBeak.Composer.RoundTrip
import BitBeak.Http.HeaderBlock
import BitBeak.Inspect
import BitBeak.Lib.BoolTextExact
import BitBeak.Ui.HitMap

/-! The inspector's dump, and what it is read back as: a column of digits in the composer, or in a
query for the log. -/
namespace BitBeak.Inspect
open BoolText Utf8
open Wire hiding slice

/-- The digits of the octets from the `j`-th of a line on; there is a gap in front of the ninth. -/
def hexCells : Nat → Bytes → Text
  | _, [] => []
  | j, b :: rest =>
    (if j = 8 then [' '] else []) ++ (hexDigits 2 b.toNat).toList ++ ' ' :: hexCells (j + 1) rest

/-- The digits of a line, filled up to the width of a whole one. -/
def hexColumn (chunk : Bytes) : Text :=
  hexCells 0 chunk ++ List.replicate (49 - (hexCells 0 chunk).length) ' '

def asciiColumn (chunk : Bytes) : Text :=
  chunk.map fun b => if 0x20 ≤ b ∧ b ≤ 0x7e then octetChar b else '.'

def dumpLine (offset : Nat) (chunk : Bytes) : String :=
  String.ofList ((hexDigits 4 offset).toList ++ ':' :: ' ' :: (hexColumn chunk ++
    ' ' :: asciiColumn chunk))

def moreBytes (count : Nat) : String := "… " ++ toString count ++ " more bytes"

/-- `chunks(16)`. -/
def chunks (payload : Bytes) : List Bytes :=
  (List.range ((payload.length + 15) / 16)).map fun i => (payload.drop (16 * i)).take 16

/-- The loop over the chunks, from the `i`-th on. -/
def dumpLoop (len maxLines : Nat) : Nat → List Bytes → List String
  | _, [] => []
  | i, chunk :: rest =>
    if maxLines ≤ i then [moreBytes (len - i * 16)]
    else dumpLine (i * 16) chunk :: dumpLoop len maxLines (i + 1) rest

def hexDump (payload : Bytes) (maxLines : Nat) : List String :=
  match dumpLoop payload.length maxLines 0 (chunks payload) with
  | [] => ["(empty)"]
  | lines => lines

section
variable (jsonPretty : Bytes → Except String String) (readValue : Bytes → Except String Value)

def msgpackPretty (payload : Bytes) : Except String String :=
  (readValue payload).map (formatMsgpack 0)

def rawText (payload : Bytes) : String := previewBytes payload (2 ^ 64 - 1)

/-- The first lines of a text; what is no such text is dumped, with the reason. -/
def renderText (payload : Bytes) (maxLines : Nat) :
    Except String String → List String × Option String
  | .ok s => (((textLines s.toList).take maxLines).map String.ofList, none)
  | .error e => (hexDump payload (min maxLines 8), some e)

def render (mode : Ui.InspectMode) (payload : Bytes) (maxLines : Nat) :
    List String × Option String :=
  match mode with
  | .hex => (hexDump payload maxLines, none)
  | .raw =>
    let lines := textLines (rawText payload).toList
    (if lines = [] then [rawText payload] else (lines.take maxLines).map String.ofList, none)
  | .json => renderText payload maxLines (jsonPretty payload)
  | .msgPack => renderText payload maxLines (msgpackPretty readValue payload)

end

/- A line and its columns. -/

def offsetOf (line : String) : Text := line.toList.takeWhile (· ≠ ':')

def columnOf (line : String) : Text := ((line.toList.dropWhile (· ≠ ':')).drop 2).take 49

theorem length_hexCells (j : Nat) (chunk : Bytes) : (hexCells j chunk).length =
    3 * chunk.length + if j ≤ 8 ∧ 8 < j + chunk.length then 1 else 0 := by
  induction chunk generalizing j with
  | nil =>
    rw [if_neg (by simp)]
    rfl
  | cons b rest ih =>
    have pair : ((hexDigits 2 b.toNat).toList).length = 2 := by
      rw [hexDigits_two]
      rfl
    have gap : (if j = 8 then [' '] else [] : Text).length = if j = 8 then 1 else 0 := by
      split <;> rfl
    rw [hexCells, List.length_append, List.length_append, pair, gap, List.length_cons, ih,
      List.length_cons]
    split <;> split <;> split <;> omega

theorem filter_hexCells (j : Nat) (chunk : Bytes) :
    (hexCells j chunk).filter isHexDigitText = chunk.flatMap digitPair := by
  have blank : isHexDigitText ' ' = false := by decide
  induction chunk generalizing j with
  | nil => rfl
  | cons b rest ih =>
    have pair : (hexDigits 2 b.toNat).toList = digitPair b := hexDigits_two b
    have gap : (if j = 8 then [' '] else [] : Text).filter isHexDigitText = [] := by
      split
      · rw [List.filter_cons_of_neg (by rw [blank]; exact Bool.false_ne_true)]
        rfl
      · rfl
    rw [hexCells, pair, List.filter_append, List.filter_append, filter_digitPair, gap,
      List.filter_cons_of_neg (by rw [blank]; exact Bool.false_ne_true), ih, List.flatMap_cons]
    rfl

theorem length_hexColumn {chunk : Bytes} (short : chunk.length ≤ 16) :
    (hexColumn chunk).length = 49 := by
  rw [hexColumn, List.length_append, List.length_replicate, length_hexCells]
  split <;> omega

theorem filter_hexColumn (chunk : Bytes) :
    (hexColumn chunk).filter isHexDigitText = chunk.flatMap digitPair := by
  have blanks : ∀ n, (List.replicate n ' ').filter isHexDigitText = [] := by
    intro n
    rw [List.filter_replicate]
    exact if_neg (by decide)
  rw [hexColumn, List.filter_append, filter_hexCells, blanks, List.append_nil]

theorem offset_digits {width n : Nat} : ∀ c ∈ (hexDigits width n).toList, c ≠ ':' := by
  rintro c member rfl
  rw [hexDigits, String.toList_ofList, List.mem_append] at member
  rcases member with padding | digit
  · exact absurd (List.eq_of_mem_replicate padding) (by decide)
  · obtain ⟨d, small, same⟩ := hexDigit_of_mem digit
    have hex := (digitChar_hex small).2.1
    rw [← same] at hex
    exact absurd hex (by decide)

theorem offsetOf_dumpLine (offset : Nat) (chunk : Bytes) :
    offsetOf (dumpLine offset chunk) = (hexDigits 4 offset).toList := by
  rw [offsetOf, dumpLine, String.toList_ofList, List.takeWhile_append_of_pos]
  · simp
  · simpa using offset_digits

theorem columnOf_dumpLine (offset : Nat) {chunk : Bytes} (short : chunk.length ≤ 16) :
    columnOf (dumpLine offset chunk) = hexColumn chunk := by
  rw [columnOf, dumpLine, String.toList_ofList, List.dropWhile_append_of_pos]
  · rw [List.dropWhile_cons_of_neg (by decide)]
    exact List.take_left' (length_hexColumn short)
  · simpa using offset_digits

/- The chunks. -/

theorem short_chunk {payload chunk : Bytes} (member : chunk ∈ chunks payload) :
    chunk.length ≤ 16 := by
  obtain ⟨i, -, rfl⟩ := List.mem_map.mp member
  rw [List.length_take]
  exact Nat.min_le_left ..

theorem flatten_range (payload : Bytes) (n : Nat) :
    ((List.range n).map fun i => (payload.drop (16 * i)).take 16).flatten =
      payload.take (16 * n) := by
  induction n with
  | zero => rfl
  | succ n ih =>
    rw [List.range_succ, List.map_append, List.flatten_append, ih, Nat.mul_succ, List.take_add]
    simp

theorem flatten_chunks (payload : Bytes) (n : Nat) :
    ((chunks payload).take n).flatten = payload.take (16 * n) := by
  rw [chunks, ← List.map_take, List.take_range, flatten_range]
  rcases Nat.le_total n ((payload.length + 15) / 16) with few | all
  · rw [Nat.min_eq_left few]
  · rw [Nat.min_eq_right all, List.take_of_length_le (by omega), List.take_of_length_le (by omega)]

/- Digits, read. -/

theorem length_digitPairs (octets : Bytes) :
    (encode (octets.flatMap digitPair)).length = 2 * octets.length := by
  induction octets with
  | nil => rfl
  | cons b octets ih =>
    rw [List.flatMap_cons, encode_append, encode_digitPair, List.length_append, ih]
    simp only [List.length_cons, List.length_nil]
    omega

/-- What is in between the digits does not matter. -/
theorem parseHexBytes_pairs {t : Text} {octets : Bytes}
    (pairs : t.filter isHexDigitText = octets.flatMap digitPair) :
    parseHexBytes (String.ofList t) = .ok octets := by
  rw [parseHexBytes, String.toList_ofList, pairs, nibblePairs_digits, length_digitPairs]
  exact if_neg (by omega)

theorem filter_trim (t : Text) :
    (BoolText.trim isWhitespace t).filter isHexDigitText = t.filter isHexDigitText := by
  have kept_eq : ∀ t : Text, kept (fun c => !isHexDigitText c) t = t.filter isHexDigitText := by
    intro t
    rw [kept]
    simp only [Bool.not_not]
  rw [← kept_eq, ← kept_eq]
  refine kept_trim ?_ t
  intro c white
  rw [isHexDigitText, white]
  rfl

theorem tight_hex : Tight isWhitespace "hex:".toList :=
  ⟨⟨'h', by decide, by decide⟩, ⟨':', by decide, by decide⟩⟩

/-- A query with such digits finds the frames that have these octets in them. -/
theorem matchesFilter_hex {t : Text} {octets : Bytes}
    (pairs : t.filter isHexDigitText = octets.flatMap digitPair) (some : octets ≠ []) (f : Frame) :
    f.matchesFilter ("hex:" ++ String.ofList t) = true ↔ octets <:+: f.payload := by
  have query : "hex:" ++ String.ofList t = String.ofList ("hex:".toList ++ t) := by
    rw [String.ofList_append, String.ofList_toList]
  have trimmed : BitBeak.trim ("hex:" ++ String.ofList t) =
      String.ofList ("hex:".toList ++ t.rdropWhile isWhitespace) := by
    rw [query, trim_ofList, tight_hex.trim_front]
  have stripped : stripPrefix (BitBeak.trim ("hex:" ++ String.ofList t)) "hex:" =
      Option.some (String.ofList (t.rdropWhile isWhitespace)) := by
    have whole : (String.ofList ("hex:".toList ++ t.rdropWhile isWhitespace)).toList =
        "hex:".toList ++ t.rdropWhile isWhitespace := String.toList_ofList
    rw [trimmed, stripPrefix, whole, if_pos, List.drop_left]
    rw [List.isPrefixOf_iff_prefix]
    exact List.prefix_append ..
  have digits : parseHexBytes (BitBeak.trim (String.ofList (t.rdropWhile isWhitespace))) =
      .ok octets := by
    rw [trim_ofList, Http.trim_rdropWhile]
    refine parseHexBytes_pairs ?_
    rw [filter_trim, pairs]
  have nonempty : "hex:" ++ String.ofList t ≠ "" := by
    intro none
    have empty := congrArg String.toList none
    rw [String.toList_append] at empty
    exact absurd (List.append_eq_nil_iff.mp empty).1 (by decide)
  rw [Frame.matchesFilter, if_neg nonempty]
  dsimp only
  rw [stripped]
  dsimp only
  rw [digits]
  dsimp only
  rw [Bool.and_eq_true, Bool.not_eq_true', List.isEmpty_eq_false_iff, List.any_eq_true]
  simp only [some, ne_eq, not_false_eq_true, true_and, List.isPrefixOf_iff_prefix, List.mem_tails]
  rw [List.infix_iff_prefix_suffix]
  exact exists_congr fun rest => and_comm

/- The lines of a dump. -/

theorem dumpLoop_eq (len : Nat) {maxLines i : Nat} (inside : i ≤ maxLines) (listed : List Bytes) :
    dumpLoop len maxLines i listed =
      ((listed.take (maxLines - i)).zipIdx i).map (fun c => dumpLine (c.2 * 16) c.1) ++
        if maxLines - i < listed.length then [moreBytes (len - maxLines * 16)] else [] := by
  induction listed generalizing i with
  | nil => simp [dumpLoop]
  | cons chunk rest ih =>
    rw [dumpLoop]
    split
    · next past =>
      obtain rfl : i = maxLines := by omega
      simp
    · next under =>
      obtain ⟨left, more⟩ : ∃ left, maxLines - i = left + 1 := ⟨maxLines - (i + 1), by omega⟩
      have next : maxLines - (i + 1) = left := by omega
      rw [ih (by omega), more, next, List.take_succ_cons, List.zipIdx_cons, List.map_cons,
        List.length_cons, List.cons_append]
      simp only [Nat.add_lt_add_iff_right]

theorem hexDump_empty (n : Nat) : hexDump [] n = ["(empty)"] := rfl

theorem length_chunks (payload : Bytes) : (chunks payload).length = (payload.length + 15) / 16 := by
  rw [chunks, List.length_map, List.length_range]

/-- The dump of what is not empty. -/
theorem hexDump_eq {payload : Bytes} (some : payload ≠ []) (n : Nat) :
    hexDump payload n =
      (((chunks payload).take n).zipIdx.map fun c => dumpLine (c.2 * 16) c.1) ++
        if 16 * n < payload.length then [moreBytes (payload.length - n * 16)] else [] := by
  have long := List.length_pos_iff.mpr some
  have whole := dumpLoop_eq payload.length (Nat.zero_le n) (chunks payload)
  have more : n < (chunks payload).length ↔ 16 * n < payload.length := by
    rw [length_chunks]
    omega
  rw [Nat.sub_zero] at whole
  simp only [more] at whole
  rw [hexDump, whole]
  split
  · next none =>
    exfalso
    obtain ⟨lines, rest⟩ := List.append_eq_nil_iff.mp none
    by_cases enough : 16 * n < payload.length
    · rw [if_pos enough] at rest
      cases rest
    · have length := congrArg List.length lines
      rw [List.length_map, List.length_zipIdx, List.length_take, length_chunks] at length
      simp only [List.length_nil] at length
      omega
  · rfl

/-- The lines without the one that counts the rest. -/
theorem hexDump_take {payload : Bytes} (some : payload ≠ []) (n : Nat) :
    (hexDump payload n).take n =
      ((chunks payload).take n).zipIdx.map fun c => dumpLine (c.2 * 16) c.1 := by
  rw [hexDump_eq some, List.take_append]
  have lines : (((chunks payload).take n).zipIdx.map fun c => dumpLine (c.2 * 16) c.1).length =
      min n ((payload.length + 15) / 16) := by
    rw [List.length_map, List.length_zipIdx, List.length_take, length_chunks]
  rw [List.take_of_length_le (by rw [lines]; exact Nat.min_le_left ..)]
  split
  · next more =>
    rw [show n - _ = 0 by rw [lines]; omega, List.take_zero, List.append_nil]
  · rw [List.take_nil, List.append_nil]

theorem columns_pairs {payload : Bytes} (some : payload ≠ []) (n : Nat) :
    (((hexDump payload n).take n).flatMap columnOf).filter isHexDigitText =
      (payload.take (16 * n)).flatMap digitPair := by
  have own : ∀ c ∈ ((chunks payload).take n).zipIdx,
      (columnOf (dumpLine (c.2 * 16) c.1)).filter isHexDigitText = c.1.flatMap digitPair := by
    intro c member
    have listed : c.1 ∈ chunks payload :=
      List.mem_of_mem_take (List.fst_mem_of_mem_zipIdx member)
    rw [columnOf_dumpLine _ (short_chunk listed), filter_hexColumn]
  have all : ((chunks payload).take n).zipIdx.flatMap (fun c => c.1.flatMap digitPair) =
      ((chunks payload).take n).flatMap fun chunk => chunk.flatMap digitPair := by
    have firsts := List.flatMap_map Prod.fst (fun chunk : Bytes => chunk.flatMap digitPair)
      ((chunks payload).take n).zipIdx
    rw [List.zipIdx_map_fst] at firsts
    exact firsts.symm
  rw [hexDump_take some, List.flatMap_map, List.filter_flatMap, List.flatMap_congr own, all,
    ← flatten_chunks, ← List.flatMap_id, List.flatMap_assoc]
  rfl

/-- The line of a chunk. -/
theorem hexDump_line {payload : Bytes} (some : payload ≠ []) {n i : Nat} {line : String}
    (here : ((hexDump payload n).take n)[i]? = Option.some line) :
    (payload.drop (16 * i)).take 16 ≠ [] ∧
      line = dumpLine (16 * i) ((payload.drop (16 * i)).take 16) := by
  rw [hexDump_take some, List.getElem?_map, List.getElem?_zipIdx, Option.map_map] at here
  obtain ⟨chunk, listed, rfl⟩ := Option.map_eq_some_iff.mp here
  rw [List.getElem?_take] at listed
  split at listed
  · rw [chunks, List.getElem?_map] at listed
    obtain ⟨j, counted, rfl⟩ := Option.map_eq_some_iff.mp listed
    obtain ⟨inside, rfl⟩ := List.getElem?_eq_some_iff.mp counted
    rw [List.length_range] at inside
    rw [List.getElem_range, Function.comp_apply, Nat.zero_add, Nat.mul_comm i 16]
    refine ⟨List.ne_nil_of_length_pos ?_, rfl⟩
    rw [List.length_take, List.length_drop]
    omega
  · cases listed

/-- Whatever the payload and however many lines are shown of it: the columns of digits, put into
the composer, are the octets that are shown; the last line counts the others; and a line tells where
its octets are, and its column as a query finds the frames of a log that have them. -/
theorem hexDump_read (payload : Bytes) (n : Nat) :
    parseHexBytes (String.ofList (((hexDump payload n).take n).flatMap columnOf)) =
        .ok (payload.take (16 * n)) ∧
      (hexDump payload n).drop (max n 1) = (if 0 < n ∧ 16 * n < payload.length
        then [moreBytes (payload.length - 16 * n)] else []) ∧
      ∀ (i : Nat) (line : String), ((hexDump payload n).take n)[i]? = some line → payload ≠ [] →
        offsetOf line = (hexDigits 4 (16 * i)).toList ∧
        ∀ f : Frame, f.matchesFilter ("hex:" ++ String.ofList (columnOf line)) = true ↔
          (payload.drop (16 * i)).take 16 <:+: f.payload := by
  by_cases none : payload = []
  · subst none
    rw [hexDump_empty]
    refine ⟨?_, ?_, fun _ _ _ some => absurd rfl some⟩
    · refine parseHexBytes_pairs ?_
      cases n with
      | zero => rfl
      | succ n =>
        rw [List.take_succ_cons, List.take_nil, List.take_nil]
        decide
    · rw [if_neg (by simp)]
      exact List.drop_of_length_le (Nat.le_max_right n 1)
  · refine ⟨parseHexBytes_pairs (columns_pairs none n), ?_, ?_⟩
    · have lines : (((chunks payload).take n).zipIdx.map fun c =>
          dumpLine (c.2 * 16) c.1).length = min n ((payload.length + 15) / 16) := by
        rw [List.length_map, List.length_zipIdx, List.length_take, length_chunks]
      rw [hexDump_eq none, List.drop_append, List.drop_of_length_le (by rw [lines]; omega),
        List.nil_append, lines, Nat.mul_comm n 16]
      by_cases more : 16 * n < payload.length
      · rw [if_pos more]
        cases n with
        | zero => rw [if_neg (by simp)]; rfl
        | succ n =>
          rw [if_pos ⟨Nat.succ_pos n, more⟩, show max (n + 1) 1 - _ = 0 by omega, List.drop_zero]
      · rw [if_neg more, if_neg (fun both => more both.2), List.drop_nil]
    · intro i line here some
      obtain ⟨nonempty, rfl⟩ := hexDump_line some here
      have short : ((payload.drop (16 * i)).take 16).length ≤ 16 := List.length_take_le ..
      refine ⟨offsetOf_dumpLine .., fun f => matchesFilter_hex ?_ nonempty f⟩
      rw [columnOf_dumpLine _ short, filter_hexColumn]

theorem dump_of_twenty :
    parseHexBytes (String.ofList (((hexDump (List.replicate 20 0x41) 1).take 1).flatMap columnOf)) =
        .ok (List.replicate 16 0x41) ∧
      (hexDump (List.replicate 20 0x41) 1).drop 1 = [moreBytes 4] ∧
      (Frame.new 1 .inward (List.replicate 18 0x41)).matchesFilter ("hex:" ++
        String.ofList (columnOf (dumpLine 0 (List.replicate 16 0x41)))) = true := by
  obtain ⟨read, more, lines⟩ := hexDump_read (List.replicate 20 0x41) 1
  exact ⟨read, more, ((lines 0 _ rfl (by decide)).2 _).mpr ⟨[], [0x41, 0x41], rfl⟩⟩

/-- What a mode cannot show is dumped, as what is to be dumped is. -/
theorem render_read {jsonPretty : Bytes → Except String String}
    {readValue : Bytes → Except String Value} {mode : Ui.InspectMode} {payload : Bytes} {n : Nat}
    {lines : List String} {error : Option String}
    (shown : render jsonPretty readValue mode payload n = (lines, error))
    (dumped : mode = .hex ∨ error ≠ none) :
    ∃ k, k = (if mode = .hex then n else min n 8) ∧
      parseHexBytes (String.ofList ((lines.take k).flatMap columnOf)) =
        .ok (payload.take (16 * k)) := by
  have fallback : ∀ {result : Except String String},
      renderText payload n result = (lines, error) → error ≠ none →
        lines = hexDump payload (min n 8) := by
    intro result same told
    cases result with
    | ok s =>
      cases same
      exact absurd rfl told
    | error e =>
      cases same
      rfl
  cases mode with
  | hex =>
    cases shown
    exact ⟨n, rfl, (hexDump_read payload n).1⟩
  | raw =>
    cases shown
    rcases dumped with dumped | dumped
    · cases dumped
    · exact absurd rfl dumped
  | json =>
    rw [fallback shown (dumped.resolve_left nofun)]
    exact ⟨min n 8, rfl, (hexDump_read payload (min n 8)).1⟩
  | msgPack =>
    rw [fallback shown (dumped.resolve_left nofun)]
    exact ⟨min n 8, rfl, (hexDump_read payload (min n 8)).1⟩

end BitBeak.Inspect
