import BitBeak.Http.Client

/-! A configured header against the headers of the list. `upsert_header` changes the first header
of the name; of those that are sent under one name the last one stays in the header map. -/
namespace BitBeak.Http

theorem eqIgnoreAsciiCase_iff (a b : String) :
    eqIgnoreAsciiCase a b = true ↔ toAsciiLowercase a = toAsciiLowercase b := by
  simp [eqIgnoreAsciiCase, toAsciiLowercase, ← String.toList_inj]

/-- The values that a header map has under a name. -/
def valuesOf (name : String) (map : Headers) : List String :=
  (map.filter fun h => h.1 = toAsciiLowercase name).map Prod.snd

/-- The headers that are taken into the map under the name. -/
def sentUnder (crates : HttpCrates) (name : String) (headers : Headers) : Headers :=
  headers.filter fun h =>
    crates.validHeaderName h.1 && crates.validHeaderValue h.2 && eqIgnoreAsciiCase h.1 name

/-- The headers behind the first one of the name. -/
def behindFirst (name : String) (headers : Headers) : Headers :=
  (headers.dropWhile fun h => !eqIgnoreAsciiCase h.1 name).tail

/-- Names are compared without regard to letter case. -/
def HttpCrates.Caseless (crates : HttpCrates) : Prop :=
  ∀ a b, eqIgnoreAsciiCase a b = true → crates.validHeaderName a = crates.validHeaderName b

section
variable (crates : HttpCrates) (name : String)

theorem headerMap_append (headers : Headers) (h : String × String) :
    headerMap crates (headers ++ [h]) =
      if crates.validHeaderName h.1 ∧ crates.validHeaderValue h.2 then
        insertHeader (headerMap crates headers) (toAsciiLowercase h.1) h.2
      else headerMap crates headers := by
  simp [headerMap, List.foldl_append]

theorem valuesOf_insert (map : Headers) (key value : String) :
    valuesOf name (insertHeader map key value) =
      if key = toAsciiLowercase name then [value] else valuesOf name map := by
  rw [valuesOf, insertHeader, List.filter_append, List.filter_filter]
  split
  · next same => simp [same]
  · next other =>
    have kept : ∀ h : String × String,
        (decide (h.1 = toAsciiLowercase name) && !decide (h.1 = key)) =
          decide (h.1 = toAsciiLowercase name) := by
      intro h
      by_cases here : h.1 = toAsciiLowercase name
      · simp [here, Ne.symm other]
      · simp [here]
    simp [valuesOf, kept, other]

/-- Of the headers that are sent under a name the map has the last one. -/
theorem valuesOf_headerMap (headers : Headers) :
    valuesOf name (headerMap crates headers) =
      ((sentUnder crates name headers).getLast?.map Prod.snd).toList := by
  induction headers using List.reverseRecOn with
  | nil => rfl
  | append_singleton headers h ih =>
    rw [headerMap_append, sentUnder, List.filter_append]
    by_cases valid : crates.validHeaderName h.1 ∧ crates.validHeaderValue h.2
    · rw [if_pos valid, valuesOf_insert]
      by_cases same : eqIgnoreAsciiCase h.1 name = true
      · rw [if_pos ((eqIgnoreAsciiCase_iff ..).mp same)]
        simp [valid, same]
      · rw [if_neg fun equal => same ((eqIgnoreAsciiCase_iff ..).mpr equal), ih]
        simp [sentUnder, same]
    · rw [if_neg valid, ih]
      have left : (crates.validHeaderName h.1 && crates.validHeaderValue h.2) = false := by
        simpa using valid
      simp [sentUnder, left]

theorem sentUnder_append (front behind : Headers) :
    sentUnder crates name (front ++ behind) =
      sentUnder crates name front ++ sentUnder crates name behind :=
  List.filter_append front behind

/-- The changed list: a header of the name, and behind it those that were behind the first one. -/
theorem upsertHeader_split (value : String) (headers : Headers) :
    ∃ front key, upsertHeader name value headers =
        front ++ (key, value) :: behindFirst name headers ∧ eqIgnoreAsciiCase key name = true := by
  induction headers with
  | nil => exact ⟨[], name, rfl, (eqIgnoreAsciiCase_iff name name).mpr rfl⟩
  | cons h headers ih =>
    obtain ⟨key, old⟩ := h
    by_cases same : eqIgnoreAsciiCase key name = true
    · exact ⟨[], key, by simp [upsertHeader, behindFirst, same], same⟩
    · obtain ⟨front, first, split, found⟩ := ih
      refine ⟨(key, old) :: front, first, ?_, found⟩
      simp [upsertHeader, behindFirst, same, split]

variable {crates name} {value : String}

/-- The last header of the name behind the first one is what is sent, if there is one. -/
theorem valuesOf_upsert (caseless : crates.Caseless) (validName : crates.validHeaderName name = true)
    (validValue : crates.validHeaderValue value = true) (headers : Headers) :
    valuesOf name (headerMap crates (upsertHeader name value headers)) =
      [((sentUnder crates name (behindFirst name headers)).getLast?.map Prod.snd).getD value] := by
  obtain ⟨front, key, split, found⟩ := upsertHeader_split name value headers
  have here : sentUnder crates name ((key, value) :: behindFirst name headers) =
      (key, value) :: sentUnder crates name (behindFirst name headers) := by
    simp [sentUnder, found, caseless key name found, validName, validValue]
  rw [valuesOf_headerMap, split, sentUnder_append, here,
    List.getLast?_append_of_ne_nil _ (List.cons_ne_nil _ _), List.getLast?_cons]
  cases (sentUnder crates name (behindFirst name headers)).getLast? <;> simp

/-- After `upsert_header` the map has the new value alone under the name exactly if no header of
the name that is sent stands behind the first one, or the last of them has that value. -/
theorem header_override_iff (caseless : crates.Caseless)
    (validName : crates.validHeaderName name = true)
    (validValue : crates.validHeaderValue value = true) (headers : Headers) :
    valuesOf name (headerMap crates (upsertHeader name value headers)) = [value] ↔
      ∀ last, (sentUnder crates name (behindFirst name headers)).getLast? = some last →
        last.2 = value := by
  rw [valuesOf_upsert caseless validName validValue]
  cases (sentUnder crates name (behindFirst name headers)).getLast? <;> simp

end

/- Crates that take the header names and values of RFC 9110, and nothing else. -/

def isTokenChar (c : Char) : Bool := c.isAlphanum || "!#$%&'*+-.^_|~\x60".toList.contains c

def headerCrates : HttpCrates where
  uri _ := none
  validMethod _ := false
  validHeaderName name :=
    let lower := toAsciiLowercase name
    lower != "" && lower.toList.all isTokenChar
  validHeaderValue value := value.toList.all fun c => c == '\t' || (' ' ≤ c && c ≤ '~')
  urlencode text := text
  base64 text := text
  readFile _ := none
  fileName _ := none
  boundaryId := 0

theorem headerCrates_caseless : headerCrates.Caseless := by
  intro a b same
  simp only [headerCrates, (eqIgnoreAsciiCase_iff a b).mp same]

theorem header_override_single :
    valuesOf "Authorization" (headerMap headerCrates (upsertHeader "Authorization" "Bearer new"
      [("Accept", "*/*"), ("authorization", "Bearer old")])) = ["Bearer new"] := by
  have alone : behindFirst "Authorization"
      [("Accept", "*/*"), ("authorization", "Bearer old")] = [] := by decide
  refine (header_override_iff headerCrates_caseless (by decide) (by decide) _).mpr ?_
  simp [alone, sentUnder]

/-- A second header of the name wins over the configured one. -/
theorem header_override_lost :
    ¬ ∀ (crates : HttpCrates) (name value : String) (headers : Headers), crates.Caseless →
      crates.validHeaderName name = true → crates.validHeaderValue value = true →
      valuesOf name (headerMap crates (upsertHeader name value headers)) = [value] := by
  intro all
  have won := all headerCrates "Authorization" "Bearer new"
    [("Authorization", "Bearer old"), ("authorization", "Bearer older")] headerCrates_caseless
    (by decide) (by decide)
  revert won
  decide

end BitBeak.Http
