import BitBeak.Composer.Escapes
import BitBeak.Dissect.Lossy
import BitBeak.Session.SavedRequests

/-! The history of sent requests: an entry that is loaded into a session, and the request that is
built there. The body of an entry is what the editor's text stood for, and is read as such a text
again. -/
namespace BitBeak
open BoolText ByteText Collections Http Utf8
open Wire hiding slice

/- The body. -/

theorem nibblePairs_length {bytes out : Bytes} (read : nibblePairs bytes = .ok out) :
    2 * out.length ≤ bytes.length := by
  induction hn : bytes.length using Nat.strongRecOn generalizing bytes out with
  | ind n ih =>
    match bytes with
    | [] | [_] =>
      cases read
      simp
    | high :: low :: rest =>
      rw [nibblePairs] at read
      cases first : hexNibble high with
      | error e =>
        rw [first] at read
        cases read
      | ok hi =>
        cases second : hexNibble low with
        | error e =>
          rw [first, second] at read
          cases read
        | ok lo =>
          cases others : nibblePairs rest with
          | error e =>
            rw [first, second, others] at read
            cases read
          | ok more =>
            rw [first, second, others] at read
            cases read
            simp only [List.length_cons] at hn ⊢
            have behind := ih rest.length (by omega) others rfl
            omega

theorem length_encode_filter (p : Char → Bool) (t : Text) :
    (encode (t.filter p)).length ≤ (encode t).length := by
  induction t with
  | nil => simp
  | cons c t ih =>
    rw [List.filter_cons]
    split <;> simp only [encode_cons, List.length_append] <;> omega

/-- A text read as hexadecimal digits stands for its own octets only if it is empty. -/
theorem hex_encode_iff (t : Text) : parseHexBytes (String.ofList t) = .ok (encode t) ↔ t = [] := by
  constructor
  · intro read
    rw [parseHexBytes, String.toList_ofList] at read
    split at read
    · cases read
    · have pairs := nibblePairs_length read
      have shorter := length_encode_filter isHexDigitText t
      cases t with
      | nil => rfl
      | cons c t =>
        have positive := length_pos c
        simp only [encode_cons, List.length_append] at *
        omega
  · rintro rfl
    rfl

/-- The octets of the text are what the composer makes of it. -/
def OwnOctets (t : Text) : ComposerMode → Prop
  | .utf8 => NoEscapes t
  | .hex => t = []

theorem decodePayload_own (t : Text) (mode : ComposerMode) :
    decodePayload (String.ofList t) mode = given (.ok (encode t)) ↔ OwnOctets t mode := by
  cases mode with
  | utf8 =>
    rw [decodePayload, decodeUtf8Escapes_iff, String.toList_ofList]
    exact unescapes_encode_iff t
  | hex =>
    rw [OwnOctets, ← hex_encode_iff, decodePayload]
    exact ⟨fun same => Except.ok.inj same, congrArg given⟩

/- The request. -/

theorem cookieHeaderFor_empty {jar : CookieJar} (empty : jar.cookies = []) (url : String) (now : Nat) :
    jar.cookieHeaderFor url now = none := by
  rw [CookieJar.cookieHeaderFor, empty]
  split
  · rfl
  · split <;> rfl

/-- What is built after `entry` is loaded, around the octets of the body. -/
def rebuilt (s : HttpSession) (entry : HistoryEntry) (body : Bytes) : HttpRequestSpec where
  method := edited entry.method
  url := edited entry.url
  headers := parseHeaderBlock (edited (formatHeaders entry.requestHeaders))
  body := body
  followRedirects := s.followRedirects
  maxRedirects := s.maxRedirects
  auth := s.auth
  authToken := s.authTokenTa.textOf
  authUser := s.authUserTa.textOf
  authPass := s.authPassTa.textOf
  authKey := s.authKeyTa.textOf
  authValue := s.authValueTa.textOf
  formFields := s.formFields

theorem buildSpec_history (json : JsonCrate) (now : Nat) {s : HttpSession}
    (cookies : s.cookies.cookies = []) (entry : HistoryEntry) :
    (s.loadHistory entry).buildSpec json now none = do
      let body ← decodePayload (edited entry.requestBody) s.composerMode
      return rebuilt s entry body := by
  have uncooked : ∀ spec, withCookies s.cookies now spec = spec := by
    intro spec
    rw [withCookies, cookieHeaderFor_empty cookies]
  have form : (s.loadHistory entry).currentForm = s.formFields := by
    simp [HttpSession.currentForm, HttpSession.loadHistory]
  rw [HttpSession.buildSpec, form]
  simp only [HttpSession.withGraphql, HttpSession.loadHistory, HttpSession.withBodyForm, uncooked]
  rfl

/-- A request whose method, URL and headers are lines, and whose body is the text `t`, without
carriage returns and without a line break at its end. -/
structure SentText (spec : HttpRequestSpec) (t : Text) : Prop where
  method : '\n' ∉ spec.method.toList
  url : '\n' ∉ spec.url.toList
  headers : ∀ h ∈ spec.headers, HeaderLine h
  body : spec.body = encode t
  returns : '\r' ∉ t
  unended : t.getLast? ≠ some '\n'

theorem SentText.settled {spec : HttpRequestSpec} {t : Text} (sent : SentText spec t) :
    EditorText (String.ofList t) := by
  rw [EditorText, String.toList_ofList]
  exact ⟨sent.unended, fun inside => sent.returns (inside.subset List.mem_cons_self)⟩

theorem entry_body (sentAt : Nat) (totalMs : UInt64) (resp : Http.HttpResponse)
    {spec : HttpRequestSpec} {t : Text} (sent : SentText spec t) :
    edited (historyEntry sentAt totalMs spec resp).requestBody = String.ofList t := by
  rw [historyEntry, sent.body, fromUtf8Lossy_encode]
  exact (edited_iff _).mpr sent.settled

/-- What was sent, as far as an entry of the history has it. -/
def SameRequest (sent built : HttpRequestSpec) : Prop :=
  built.method = sent.method ∧ built.url = sent.url ∧ built.headers = sent.headers ∧
    built.body = sent.body

/-- The entry of a sent request gives the request back exactly if its headers are what their lines
say, and its body stands for its own octets: in text mode no backslash of it begins an escape, and
in hexadecimal mode it is empty. -/
theorem history_rebuilds_iff (json : JsonCrate) (sentAt now : Nat) (totalMs : UInt64)
    (resp : Http.HttpResponse) {s : HttpSession} {spec : HttpRequestSpec} {t : Text}
    (sent : SentText spec t) (cookies : s.cookies.cookies = []) :
    (∃ built, (s.loadHistory (historyEntry sentAt totalMs spec resp)).buildSpec json now none =
        given (.ok built) ∧ SameRequest spec built) ↔
      (∀ h ∈ spec.headers, HeaderKept h) ∧ OwnOctets t s.composerMode := by
  have line : ∀ {text : String}, '\n' ∉ text.toList → edited text = text :=
    fun inside => (edited_iff _).mpr (LineText.settled_of_none inside)
  rw [← headers_again_iff sent.headers, ← decodePayload_own, buildSpec_history json now cookies,
    entry_body sentAt totalMs resp sent]
  simp only [bind_return_ok]
  constructor
  · rintro ⟨built, ⟨body, decoded, rfl⟩, -, -, headers, same⟩
    refine ⟨headers, ?_⟩
    rw [decoded, ← sent.body, ← same]
    rfl
  · rintro ⟨headers, decoded⟩
    exact ⟨_, ⟨_, decoded, rfl⟩, line sent.method, line sent.url, headers, sent.body.symm⟩

def textRequest (t : Text) : HttpRequestSpec := { method := "POST", body := encode t }

theorem textRequest_sent {t : Text} (returns : '\r' ∉ t) (unended : t.getLast? ≠ some '\n') :
    SentText (textRequest t) t where
  method := show '\n' ∉ "POST".toList by decide
  url := show '\n' ∉ "https://example.com/".toList by decide
  headers := List.forall_mem_singleton.mpr ⟨by decide, by decide⟩
  body := rfl
  returns := returns
  unended := unended

/-- No JSON is read or written. -/
def noJson : JsonCrate where
  Value := Unit
  object _ := ()
  string _ := ()
  fromStr _ := .error "no JSON"
  toStringPretty _ := .error "no JSON"

def okResponse : Http.HttpResponse :=
  { status := 200, headers := [], body := [], redirectChain := [], version := "HTTP/1.1" }

theorem history_rebuilds_plain :
    ∃ built, (savedSession.loadHistory
        (historyEntry 0 5 (textRequest "a=b".toList) okResponse)).buildSpec noJson 1 none =
      given (.ok built) ∧ SameRequest (textRequest "a=b".toList) built := by
  refine (history_rebuilds_iff noJson 0 1 5 okResponse (s := savedSession)
    (textRequest_sent (by decide) (by decide)) rfl).mpr ⟨?_, fun front behind whole => ?_⟩
  · exact List.forall_mem_singleton.mpr ⟨by decide, by decide, by decide⟩
  · have inside : '\\' ∈ "a=b".toList := whole ▸ List.mem_append_right _ List.mem_cons_self
    exact absurd inside (by decide)

/-- The escape of a JSON text is decoded when the text is sent again. -/
theorem history_decodes_escape :
    ¬ ∀ (json : JsonCrate) (sentAt now : Nat) (totalMs : UInt64) (resp : Http.HttpResponse)
      (s : HttpSession) (spec : HttpRequestSpec) (t : Text), SentText spec t → s.auth = .none →
      s.cookies.cookies = [] →
      ∃ built, (s.loadHistory (historyEntry sentAt totalMs spec resp)).buildSpec json now none =
        given (.ok built) ∧ SameRequest spec built := by
  intro all
  have sent : SentText (textRequest ['"', '\\', 'n', '"']) ['"', '\\', 'n', '"'] :=
    textRequest_sent (by decide) (by decide)
  obtain ⟨built, run, -, -, -, same⟩ := all noJson 0 1 5 okResponse savedSession _ _ sent rfl rfl
  rw [buildSpec_history noJson 1 rfl, entry_body 0 5 okResponse sent, bind_return_ok] at run
  obtain ⟨octets, decoded, rfl⟩ := run
  have own : octets = encode ['"', '\\', 'n', '"'] := same
  rw [own] at decoded
  have clear : NoEscapes ['"', '\\', 'n', '"'] := (decodePayload_own _ .utf8).mp decoded
  obtain ⟨c, rest, behind, -, other⟩ := clear ['"'] ['n', '"'] rfl
  obtain ⟨rfl, -⟩ := List.cons.inj behind
  exact other (by decide)

end BitBeak
