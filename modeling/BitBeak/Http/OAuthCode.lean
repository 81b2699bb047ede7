import BitBeak.Dissect.Lossy
import BitBeak.Dissect.Utf8Text
import BitBeak.Http.OAuthState
import BitBeak.Http.Words
import BitBeak.Lib.PercentEncoding

/-! The way of an authorization code from the callback to the request for a token. -/
namespace BitBeak.Http
open Wire BoolText

/-- A callback. Its code stands among other parameters, all of them percent-encoded; `rest` are
the octets behind the request line. -/
structure Callback where
  front : List (String × String)
  code : String
  behind : List (String × String)
  rest : Bytes
  fresh : ∀ p ∈ front, p.1 ≠ "code"

def paramText (p : String × String) : Text :=
  Percent.encode p.1.toList ++ '=' :: Percent.encode p.2.toList

/-- Parameters in front of others. -/
def leading : List (String × String) → Text
  | [] => []
  | p :: front => paramText p ++ '&' :: leading front

namespace Callback
variable (c : Callback)

def behindText : Text := c.behind.flatMap fun p => '&' :: paramText p

/-- The percent-encoding of the code. -/
def written : Text := Percent.encode c.code.toList

def query : Text := leading c.front ++ ("code=".toList ++ (c.written ++ c.behindText))

def target : Text := "/callback?".toList ++ c.query

def line : Text := "GET ".toList ++ (c.target ++ " HTTP/1.1\r".toList)

def octets : Bytes := Utf8.encode c.line ++ 10 :: c.rest

/-- The number of octets in front of the code. -/
def codeStart : Nat := 14 + (leading c.front).length + 5

end Callback

/- The pieces of a query. -/

def codePiece (piece : Text) : Option String :=
  (splitOnce '=' (String.ofList piece)).bind fun kv => if kv.1 = "code" then some kv.2 else none

theorem codeParam_pieces (query : Text) :
    codeParam (String.ofList query) = (query.splitOn '&').findSome? codePiece := by
  rw [codeParam, splitText, String.toList_ofList, List.findSome?_map]
  rfl

theorem splitOnce_outside {c : Char} {t : Text} (outside : c ∉ t) :
    splitOnce c (String.ofList t) = none := by
  have all := differs_of_outside outside
  rw [splitOnce, String.toList_ofList, List.span_eq_takeWhile_dropWhile,
    List.takeWhile_eq_self_iff.mpr all, List.dropWhile_eq_nil_iff.mpr all]

theorem codePiece_outside {piece : Text} (outside : '=' ∉ piece) : codePiece piece = none := by
  rw [codePiece, splitOnce_outside outside]
  rfl

theorem codePiece_pair {k : Text} (outside : '=' ∉ k) (v : Text) :
    codePiece (k ++ '=' :: v) = if k = "code".toList then some (String.ofList v) else none := by
  have parts : splitOnce '=' (String.ofList (k ++ '=' :: v)) =
      some (String.ofList k, String.ofList v) := by
    have text : String.ofList (k ++ '=' :: v) =
        String.ofList k ++ String.ofList ['='] ++ String.ofList v := by
      simp [← String.toList_inj]
    rw [text, splitOnce_append (by rwa [String.toList_ofList])]
  rw [codePiece, parts]
  simp [← String.toList_inj]

theorem outside_written {d : Char} (mark : Percent.unreserved d = false ∧ d ≠ '%') (text : String) :
    d ∉ Percent.encode text.toList :=
  Percent.outside_encode mark text.toList

theorem encode_code : Percent.encode "code".toList = "code".toList :=
  (Percent.encode_eq_self_iff _).mpr (by simp [Percent.unreserved, Percent.plain])

/-- The name of a parameter is another one when it is written, too. -/
theorem encode_other {name : String} (other : name ≠ "code") :
    Percent.encode name.toList ≠ "code".toList := by
  intro same
  have octets := congrArg Percent.decode (same.trans encode_code.symm)
  rw [Percent.decode_encode, Percent.decode_encode] at octets
  exact other (String.toList_inj.mp (encode_injective octets))

/-- A parameter of another name is no code, wherever it is cut. -/
theorem codePiece_other {p : String × String} (other : p.1 ≠ "code") (i : Nat) :
    codePiece ((paramText p).take i) = none := by
  have outside := outside_written (d := '=') ⟨rfl, by decide⟩ p.1
  rw [paramText, List.take_append]
  by_cases short : i ≤ (Percent.encode p.1.toList).length
  · have gone : i - (Percent.encode p.1.toList).length = 0 := by omega
    rw [gone, List.take_zero, List.append_nil]
    exact codePiece_outside fun inside => outside (List.mem_of_mem_take inside)
  · obtain ⟨j, rest⟩ : ∃ j, i - (Percent.encode p.1.toList).length = j + 1 :=
      ⟨i - (Percent.encode p.1.toList).length - 1, by omega⟩
    rw [rest, List.take_succ_cons, List.take_of_length_le (by omega), codePiece_pair outside,
      if_neg (encode_other other)]

theorem paramText_outside (p : String × String) : '&' ∉ paramText p := by
  have name := outside_written (d := '&') ⟨rfl, by decide⟩ p.1
  have value := outside_written (d := '&') ⟨rfl, by decide⟩ p.2
  simp [paramText, name, value]

/-- The code of the pieces, in a query that may be cut. -/
def firstCode (t : Text) : Option String := (t.splitOn '&').findSome? codePiece

theorem firstCode_piece {piece : Text} (outside : '&' ∉ piece) : firstCode piece = codePiece piece := by
  simp [firstCode, List.splitOn_eq_singleton outside]

theorem firstCode_cons {piece : Text} (outside : '&' ∉ piece) (t : Text) :
    firstCode (piece ++ '&' :: t) = (codePiece piece).or (firstCode t) := by
  rw [firstCode, List.splitOn_append_cons_self_of_not_mem outside, List.findSome?_cons]
  cases codePiece piece <;> rfl

/-- Parameters of other names are passed over. -/
theorem firstCode_leading {front : List (String × String)} (fresh : ∀ p ∈ front, p.1 ≠ "code")
    (t : Text) (i : Nat) :
    firstCode ((leading front ++ t).take i) =
      if (leading front).length ≤ i then firstCode (t.take (i - (leading front).length))
      else none := by
  induction front generalizing i with
  | nil => simp [leading]
  | cons p front ih =>
    obtain ⟨other, others⟩ := List.forall_mem_cons.mp fresh
    have outside := paramText_outside p
    have size : (leading (p :: front)).length =
        (paramText p).length + 1 + (leading front).length := by
      simp only [leading, List.length_append, List.length_cons]
      omega
    rw [size, leading, List.append_assoc, List.cons_append]
    by_cases short : i ≤ (paramText p).length
    · rw [List.take_append_of_le_length short,
        firstCode_piece fun inside => outside (List.mem_of_mem_take inside),
        codePiece_other other, if_neg (by omega)]
    · obtain ⟨j, rfl⟩ : ∃ j, i = (paramText p).length + (j + 1) :=
        ⟨i - (paramText p).length - 1, by omega⟩
      have whole := codePiece_other other (paramText p).length
      rw [List.take_length] at whole
      rw [List.take_length_add_append, List.take_succ_cons, firstCode_cons outside, whole,
        Option.none_or, ih others]
      by_cases fits : (leading front).length ≤ j
      · have gap : (paramText p).length + (j + 1) - ((paramText p).length + 1 + (leading front).length) =
            j - (leading front).length := by omega
        rw [if_pos fits, if_pos (by omega), gap]
      · rw [if_neg fits, if_neg (by omega)]

theorem Callback.behindText_head (c : Callback) {k : Nat} {d : Char} {more : Text}
    (cut : c.behindText.take k = d :: more) : d = '&' := by
  rw [Callback.behindText] at cut
  cases listed : c.behind with
  | nil => simp [listed] at cut
  | cons p behind =>
    rw [listed, List.flatMap_cons, List.cons_append] at cut
    cases k with
    | zero => simp at cut
    | succ k => exact (List.cons.inj cut).1.symm

/-- Of the code, what is there before the cut. -/
theorem firstCode_code (c : Callback) (i : Nat) :
    firstCode (("code=".toList ++ (c.written ++ c.behindText)).take i) =
      if 5 ≤ i then some (String.ofList (c.written.take (i - 5))) else none := by
  have name : '=' ∉ "code".toList := by simp
  by_cases short : i < 5
  · have cut : ("code=".toList ++ (c.written ++ c.behindText)).take i = "code".toList.take i := by
      have shape : "code=".toList ++ (c.written ++ c.behindText) =
          "code".toList ++ '=' :: (c.written ++ c.behindText) := by simp
      rw [shape, List.take_append_of_le_length (by simp; omega)]
    have plain : '&' ∉ "code".toList := by simp
    rw [cut, firstCode_piece fun inside => plain (List.mem_of_mem_take inside),
      codePiece_outside fun inside => name (List.mem_of_mem_take inside), if_neg (by omega)]
  · obtain ⟨j, rfl⟩ : ∃ j, i = 5 + j := ⟨i - 5, by omega⟩
    have cut : ("code=".toList ++ (c.written ++ c.behindText)).take (5 + j) =
        "code".toList ++ '=' :: (c.written ++ c.behindText).take j := by
      have five : "code=".toList.length = 5 := rfl
      rw [← five, List.take_length_add_append]
      rfl
    have outside : '&' ∉ "code".toList ++ '=' :: c.written.take j := by
      have value : '&' ∉ c.written := outside_written ⟨rfl, by decide⟩ c.code
      simpa using fun inside => value (List.mem_of_mem_take (i := j) inside)
    rw [cut, if_pos (by omega), Nat.add_sub_cancel_left, List.take_append, ← List.cons_append,
      ← List.append_assoc]
    have found : codePiece ("code".toList ++ '=' :: c.written.take j) =
        some (String.ofList (c.written.take j)) := by
      rw [codePiece_pair name, if_pos rfl]
    cases behind : c.behindText.take (j - c.written.length) with
    | nil => rw [List.append_nil, firstCode_piece outside, found]
    | cons d more =>
      rw [c.behindText_head behind, firstCode_cons outside, found]
      rfl

theorem codeParam_query (c : Callback) (i : Nat) :
    codeParam (String.ofList (c.query.take i)) =
      if (leading c.front).length + 5 ≤ i then
        some (String.ofList (c.written.take (i - ((leading c.front).length + 5)))) else none := by
  have code := firstCode_code c (i - (leading c.front).length)
  rw [codeParam_pieces, ← firstCode, Callback.query, firstCode_leading c.fresh, code]
  by_cases before : (leading c.front).length ≤ i
  · rw [if_pos before]
    by_cases fits : (leading c.front).length + 5 ≤ i
    · rw [if_pos (by omega), if_pos fits, Nat.sub_sub]
    · rw [if_neg (by omega), if_neg fits]
  · rw [if_neg before, if_neg (by omega)]

/- The request line. -/

theorem written_graphic {c : Char} {text : String} (inside : c ∈ Percent.encode text.toList) :
    33 ≤ c.toNat ∧ c.toNat ≤ 126 ∧ c ≠ '?' := by
  rcases Percent.mem_encode inside with kept | rfl
  · have bounds := Percent.plain_bounds kept
    refine ⟨by omega, by omega, ?_⟩
    rintro rfl
    exact bounds.2.2.2 rfl
  · decide

/-- The characters of a query stand on the keyboard, and none is a question mark. -/
theorem query_graphic (c : Callback) {d : Char} (inside : d ∈ c.query) :
    33 ≤ d.toNat ∧ d.toNat ≤ 126 ∧ d ≠ '?' := by
  have param : ∀ p d, d ∈ paramText p → 33 ≤ d.toNat ∧ d.toNat ≤ 126 ∧ d ≠ '?' := by
    intro p d inside
    rw [paramText, List.mem_append, List.mem_cons] at inside
    rcases inside with name | rfl | value
    · exact written_graphic name
    · decide
    · exact written_graphic value
  have front : ∀ front d, d ∈ leading front → 33 ≤ d.toNat ∧ d.toNat ≤ 126 ∧ d ≠ '?' := by
    intro front d inside
    induction front with
    | nil => cases inside
    | cons p front ih =>
      rw [leading, List.mem_append, List.mem_cons] at inside
      rcases inside with here | rfl | later
      · exact param p d here
      · decide
      · exact ih later
  rw [Callback.query, List.mem_append, List.mem_append, List.mem_append] at inside
  rcases inside with before | name | value | behind
  · exact front _ d before
  · have known : ∀ d ∈ "code=".toList, 33 ≤ d.toNat ∧ d.toNat ≤ 126 ∧ d ≠ '?' := by simp
    exact known d name
  · exact written_graphic value
  · obtain ⟨p, -, inside⟩ := List.mem_flatMap.mp behind
    rcases List.mem_cons.mp inside with rfl | inside
    · decide
    · exact param p d inside

theorem target_graphic (c : Callback) {d : Char} (inside : d ∈ c.target) :
    33 ≤ d.toNat ∧ d.toNat ≤ 126 := by
  rcases List.mem_append.mp inside with path | query
  · have graphic : ∀ d ∈ "/callback?".toList, 33 ≤ d.toNat ∧ d.toNat ≤ 126 := by simp
    exact graphic d path
  · obtain ⟨low, high, -⟩ := query_graphic c query
    exact ⟨low, high⟩

theorem target_visible (c : Callback) {d : Char} (inside : d ∈ c.target) :
    isWhitespace d = false :=
  isWhitespace_graphic (target_graphic c inside).1 (target_graphic c inside).2

/-- The first word of a text, with nothing or white space behind it. -/
theorem first_word {t behind : Text} (solid : ∀ d ∈ t, isWhitespace d = false)
    (apart : ∀ d ∈ behind.head?, isWhitespace d = true) :
    t ≠ [] → (textWords (t ++ behind))[0]? = some t := by
  intro filled
  cases behind with
  | nil => rw [List.append_nil, textWords_solid filled solid]; rfl
  | cons d behind =>
    rw [textWords_append t (apart d rfl), textWords_solid filled solid]
    rfl

/-- The target is the second word of the line, as far as it is there. -/
theorem second_word (c : Callback) (i : Nat) :
    (textWords (c.line.take i))[1]? =
      if c.target.take (i - 4) = [] then none else some (c.target.take (i - 4)) := by
  have solid : ∀ d ∈ "GET".toList, isWhitespace d = false := by simp [isWhitespace]
  have shape : c.line = "GET".toList ++ ' ' :: (c.target ++ " HTTP/1.1\r".toList) := rfl
  rw [shape]
  by_cases short : i ≤ 3
  · have none : i - 4 = 0 := by omega
    rw [List.take_append_of_le_length short, none, List.take_zero, if_pos rfl]
    by_cases nothing : "GET".toList.take i = []
    · rw [nothing]
      rfl
    · rw [textWords_solid nothing fun d inside => solid d (List.mem_of_mem_take inside)]
      rfl
  · obtain ⟨j, rfl⟩ : ∃ j, i = "GET".toList.length + (j + 1) := ⟨i - 4, by simp; omega⟩
    have method : textWords "GET".toList = ["GET".toList] := textWords_solid (by simp) solid
    have gap : "GET".toList.length + (j + 1) - 4 = j := by simp; omega
    rw [List.take_length_add_append, List.take_succ_cons, textWords_append _ (by decide), method, gap,
      List.singleton_append, List.getElem?_cons_succ, List.take_append]
    have cut : ∀ d ∈ c.target.take j, isWhitespace d = false :=
      fun d inside => target_visible c (List.mem_of_mem_take inside)
    have apart : ∀ d ∈ (" HTTP/1.1\r".toList.take (j - c.target.length)).head?,
        isWhitespace d = true := by
      cases j - c.target.length <;> simp [isWhitespace]
    split
    · next nothing =>
      cases j with
      | zero => simp [textWords]
      | succ j => cases nothing
    · next some => exact first_word cut apart some

/-- The query is what stands behind the question mark, as far as it is there. -/
theorem query_piece (c : Callback) (j : Nat) :
    ((c.target.take j).splitOn '?')[1]? = if 10 ≤ j then some (c.query.take (j - 10)) else none := by
  have noMark : '?' ∉ "/callback".toList := by simp
  have plain : '?' ∉ c.query := fun inside => (query_graphic c inside).2.2 rfl
  have shape : c.target = "/callback".toList ++ '?' :: c.query := rfl
  rw [shape]
  by_cases short : j ≤ 9
  · have cut : ("/callback".toList ++ '?' :: c.query).take j = "/callback".toList.take j :=
      List.take_append_of_le_length short
    rw [cut, List.splitOn_eq_singleton fun inside => noMark (List.mem_of_mem_take inside),
      if_neg (by omega)]
    rfl
  · obtain ⟨k, rfl⟩ : ∃ k, j = "/callback".toList.length + (k + 1) := ⟨j - 10, by simp; omega⟩
    have size : "/callback".toList.length = 9 := rfl
    rw [List.take_length_add_append, List.take_succ_cons,
      List.splitOn_append_cons_self_of_not_mem noMark,
      List.splitOn_eq_singleton fun inside => plain (List.mem_of_mem_take inside), if_pos (by omega),
      size]
    have gap : 9 + (k + 1) - 10 = k := by omega
    rw [gap]
    rfl

/- What comes back, and what is posted. -/

theorem line_ascii (c : Callback) : ∀ d ∈ c.line, d.toNat < 128 ∧ d ≠ '\n' := by
  intro d inside
  rcases List.mem_append.mp inside with method | inside
  · have known : ∀ d ∈ "GET ".toList, d.toNat < 128 ∧ d ≠ '\n' := by simp
    exact known d method
  · rcases List.mem_append.mp inside with target | version
    · obtain ⟨low, high⟩ := target_graphic c target
      refine ⟨by omega, ?_⟩
      rintro rfl
      exact absurd low (by decide)
    · have known : ∀ d ∈ " HTTP/1.1\r".toList, d.toNat < 128 ∧ d ≠ '\n' := by simp
      exact known d version

theorem firstLine_open {t : Text} (filled : t ≠ []) (open_end : '\n' ∉ t) :
    firstLine (String.ofList t) = some (String.ofList t) := by
  rw [firstLine, String.toList_ofList, if_neg filled,
    List.takeWhile_eq_self_iff.mpr (differs_of_outside open_end)]
  simp

theorem firstLine_ended {body : Text} (open_end : '\n' ∉ body ++ ['\r']) (behind : Text) :
    firstLine (String.ofList (body ++ ['\r'] ++ '\n' :: behind)) = some (String.ofList body) := by
  have line : (body ++ ['\r'] ++ '\n' :: behind).takeWhile (· ≠ '\n') = body ++ ['\r'] := by
    rw [List.takeWhile_append_of_pos (differs_of_outside open_end)]
    simp
  rw [firstLine, String.toList_ofList, if_neg (by simp), line]
  simp

theorem octets_take (c : Callback) {m : Nat} :
    lossy (c.octets.take m) = c.line.take m ∨
      (c.line.length < m ∧ ∃ behind, lossy (c.octets.take m) = c.line ++ '\n' :: behind) := by
  have ascii : ∀ d ∈ c.line, d.toNat < 128 := fun d inside => (line_ascii c d inside).1
  have whole := Utf8.encode_of_ascii ascii
  have size : (Utf8.encode c.line).length = c.line.length := by rw [whole, List.length_map]
  by_cases short : m ≤ c.line.length
  · have cut : c.octets.take m = Utf8.encode (c.line.take m) := by
      rw [Callback.octets, List.take_append_of_le_length (by omega), whole,
        Utf8.encode_of_ascii fun d inside => ascii d (List.mem_of_mem_take inside), List.map_take]
    exact .inl (by rw [cut, lossy_encode])
  · obtain ⟨k, rfl⟩ : ∃ k, m = (Utf8.encode c.line).length + (k + 1) :=
      ⟨m - c.line.length - 1, by omega⟩
    have cut : c.octets.take ((Utf8.encode c.line).length + (k + 1)) =
        Utf8.encode c.line ++ 10 :: c.rest.take k := by
      rw [Callback.octets, List.take_length_add_append, List.take_succ_cons]
    have read := lossy_ascii (Utf8.encode c.line) (e := 10) (by decide) (c.rest.take k)
    rw [lossy_encode] at read
    exact .inr ⟨by omega, lossy (c.rest.take k), by rw [cut, read]; rfl⟩

/-- The words of the first line are those of the request line, as far as it is there. -/
theorem callback_words (c : Callback) (n : Nat) :
    ((firstLine (callbackText (c.octets.take n))).bind fun line => (splitWhitespace line)[1]?) =
      ((textWords (c.line.take (min n 4096)))[1]?).map String.ofList := by
  have one_line : '\n' ∉ c.line := fun inside => (line_ascii c _ inside).2 rfl
  obtain ⟨body, ended⟩ : ∃ body, c.line = body ++ ['\r'] :=
    ⟨"GET ".toList ++ (c.target ++ " HTTP/1.1".toList), by simp [Callback.line]⟩
  have text : callbackText (c.octets.take n) = String.ofList (lossy (c.octets.take (min n 4096))) := by
    rw [callbackText, List.take_take, Nat.min_comm, lossy, String.ofList_toList]
  rw [text]
  rcases octets_take c (m := min n 4096) with cut | ⟨beyond, behind, whole⟩
  · rw [cut]
    by_cases nothing : c.line.take (min n 4096) = []
    · rw [nothing]
      simp [firstLine, textWords]
    · rw [firstLine_open nothing fun inside => one_line (List.mem_of_mem_take inside),
        Option.bind_some, splitWhitespace_words, List.getElem?_map]
  · have words : textWords c.line = textWords body := by
      rw [ended, textWords_append body (by decide)]
      exact List.append_nil _
    rw [whole, List.take_of_length_le (Nat.le_of_lt beyond), words, ended,
      firstLine_ended (ended ▸ one_line), Option.bind_some, splitWhitespace_words, List.getElem?_map]

theorem callbackQuery_arrived (c : Callback) (n : Nat) :
    callbackQuery (callbackText (c.octets.take n)) =
      if 14 ≤ min n 4096 then some (String.ofList (c.query.take (min n 4096 - 14))) else none := by
  have parts (req : String) : callbackQuery req =
      (((firstLine req).bind fun line => (splitWhitespace line)[1]?).bind fun path =>
        (splitText '?' path)[1]?) := by
    rw [Option.bind_assoc]
    rfl
  rw [parts, callback_words, second_word]
  by_cases nothing : c.target.take (min n 4096 - 4) = []
  · have before : ¬ 14 ≤ min n 4096 := by
      intro beyond
      have length := congrArg List.length nothing
      have target : 10 ≤ c.target.length := by
        have shape : c.target = "/callback?".toList ++ c.query := rfl
        simp only [shape, List.length_append]
        exact Nat.le_add_right 10 _
      simp only [List.length_take, List.length_nil] at length
      omega
    rw [if_pos nothing, if_neg before]
    rfl
  · have query := query_piece c (min n 4096 - 4)
    have gap : min n 4096 - 4 - 10 = min n 4096 - 14 := by omega
    rw [if_neg nothing, Option.map_some, Option.bind_some, splitText, String.toList_ofList,
      List.getElem?_map, query, gap]
    by_cases beyond : 14 ≤ min n 4096
    · rw [if_pos (by omega), if_pos beyond]
      rfl
    · rw [if_neg (by omega), if_neg beyond]
      rfl

theorem waitForCode_arrived (c : Callback) (n : Nat) :
    waitForCode ⟨true, some (c.octets.take n)⟩ =
      if c.codeStart ≤ min n 4096 then
        .ok (String.ofList (c.written.take (min n 4096 - c.codeStart)))
      else .error .missingCode := by
  rw [waitForCode]
  simp only [Bool.not_true, Bool.false_eq_true, if_false, callbackQuery_arrived]
  by_cases query : 14 ≤ min n 4096
  · rw [if_pos query, Option.bind_some, codeParam_query]
    by_cases fits : c.codeStart ≤ min n 4096
    · have inside : (leading c.front).length + 5 ≤ min n 4096 - 14 := by
        rw [Callback.codeStart] at fits
        omega
      have gap : min n 4096 - 14 - ((leading c.front).length + 5) = min n 4096 - c.codeStart := by
        rw [Callback.codeStart]
        omega
      rw [if_pos inside, if_pos fits, gap]
    · have outside : ¬ (leading c.front).length + 5 ≤ min n 4096 - 14 := by
        rw [Callback.codeStart] at fits
        omega
      rw [if_neg outside, if_neg fits]
  · have outside : ¬ c.codeStart ≤ min n 4096 := by
      rw [Callback.codeStart]
      omega
    rw [if_neg query, if_neg outside]
    rfl

/-- The encoder of the crate is percent encoding. -/
def PercentEncodes (urlencode : String → String) : Prop :=
  ∀ text, (urlencode text).toList = Percent.encode text.toList

/-- What was read of the code, as it is written, is the code. -/
def Callback.ReadAsIs (c : Callback) (m : Nat) : Prop :=
  c.codeStart ≤ m ∧ c.written.take (m - c.codeStart) = c.code.toList

/-- A code that was read whole is written as it is when its characters are unreserved. -/
theorem readAsIs_iff (c : Callback) {m : Nat} (whole : c.codeStart + c.written.length ≤ m) :
    c.ReadAsIs m ↔ ∀ d ∈ c.code.toList, Percent.unreserved d = true := by
  have start : c.codeStart ≤ m := by omega
  have all : c.written.take (m - c.codeStart) = c.written := List.take_of_length_le (by omega)
  rw [Callback.ReadAsIs, all, Callback.written, Percent.encode_eq_self_iff]
  exact and_iff_right start

section
variable {urlencode : String → String} (encodes : PercentEncodes urlencode)
include encodes

/-- The request for a token has the code it is made with. -/
theorem exchangeCode_value (cfg : OAuthConfig) (port : UInt16) (code verifier : String) :
    Percent.formValue "code".toList (exchangeCode urlencode cfg port code verifier).body.toList =
      some (Utf8.encode code.toList) := by
  have grant : '&' ∉ "grant_type=authorization_code".toList := by simp
  have other : Percent.decode (Percent.pair "grant_type=authorization_code".toList).1 ≠
      Utf8.encode "code".toList := by decide +kernel
  have shape : (exchangeCode urlencode cfg port code verifier).body.toList =
      "grant_type=authorization_code".toList ++
        '&' :: ("code".toList ++ '=' :: Percent.encode code.toList ++ '&' ::
          ("redirect_uri=" ++ urlencode (redirectUri port) ++ "&client_id=" ++
            urlencode cfg.clientId ++ "&code_verifier=" ++ urlencode verifier ++
            (if cfg.clientSecret = "" then ""
              else "&client_secret=" ++ urlencode cfg.clientSecret)).toList) := by
    have start : "grant_type=authorization_code&code=".toList =
        "grant_type=authorization_code".toList ++ '&' :: ("code".toList ++ ['=']) := rfl
    have next : "&redirect_uri=".toList = '&' :: "redirect_uri=".toList := rfl
    simp only [exchangeCode, String.toList_append, encodes code, start, next, List.append_assoc,
      List.cons_append, List.nil_append]
  have first := Percent.formValue_first "code".toList code.toList
  rw [encode_code] at first
  rw [shape, Percent.formValue_other grant other, first]

/-- The code that is posted is the one that was issued if and only if it was read as it is. -/
theorem code_transport_iff (c : Callback) (n : Nat) (cfg : OAuthConfig) (port : UInt16)
    (verifier : String) :
    (∃ code, waitForCode ⟨true, some (c.octets.take n)⟩ = .ok code ∧
      Percent.formValue "code".toList (exchangeCode urlencode cfg port code verifier).body.toList =
        some (Utf8.encode c.code.toList)) ↔ c.ReadAsIs (min n 4096) := by
  simp only [exchangeCode_value encodes, Option.some.injEq, waitForCode_arrived, Callback.ReadAsIs]
  by_cases start : c.codeStart ≤ min n 4096
  · rw [if_pos start]
    constructor
    · rintro ⟨code, back, same⟩
      cases back
      exact ⟨start, by simpa using encode_injective same⟩
    · rintro ⟨-, same⟩
      exact ⟨_, rfl, by rw [same, String.toList_ofList]⟩
  · rw [if_neg start]
    simp [start]

end

def percentEncode (text : String) : String := String.ofList (Percent.encode text.toList)

theorem percentEncode_encodes : PercentEncodes percentEncode := fun _ => String.toList_ofList

/-- A callback with a state in front of the code. -/
def callbackWith (code : String) : Callback where
  front := [("state", "bb9876")]
  code := code
  behind := []
  rest := []
  fresh := by simp

theorem plain_code_transported :
    ∃ code, waitForCode ⟨true, some ((callbackWith "Splxl").octets.take 100)⟩ = .ok code ∧
      Percent.formValue "code".toList
        (exchangeCode percentEncode plainConfig 9876 code "v").body.toList =
        some (Utf8.encode (callbackWith "Splxl").code.toList) :=
  (code_transport_iff percentEncode_encodes _ 100 plainConfig 9876 "v").mpr
    ((readAsIs_iff _ (by decide +kernel)).mpr
      (by simp [callbackWith, Percent.unreserved, Percent.plain]))

/-- The slash is escaped on the way, and its escape is what is posted. -/
theorem slash_code_doubled :
    waitForCode ⟨true, some ((callbackWith "4/0A").octets.take 100)⟩ = .ok "4%2F0A" ∧
      Percent.formValue "code".toList
        (exchangeCode percentEncode plainConfig 9876 "4%2F0A" "v").body.toList =
        some (Utf8.encode "4%2F0A".toList) ∧ "4%2F0A" ≠ (callbackWith "4/0A").code := by
  refine ⟨?_, exchangeCode_value percentEncode_encodes plainConfig 9876 "4%2F0A" "v", by decide⟩
  have start : (callbackWith "4/0A").codeStart ≤ min 100 4096 := by decide +kernel
  have read : String.ofList ((callbackWith "4/0A").written.take
      (min 100 4096 - (callbackWith "4/0A").codeStart)) = "4%2F0A" := by decide +kernel
  rw [waitForCode_arrived, if_pos start, read]

end BitBeak.Http
