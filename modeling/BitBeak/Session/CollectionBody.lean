import BitBeak.Collections.Substitution
import BitBeak.Dissect.Utf8Text
import BitBeak.Session.HistoryReplay

/-! The body of a request that is built with a collection. Its octets are read as a text for the
variables, and written back if the text has other octets. -/
namespace BitBeak
open Collections Http Occurrence Wire
open ByteText (Checked given)

/-- No variable of the collection stands in the octets. -/
def NoVariable (col : Collection) (octets : Bytes) : Prop :=
  ∀ v ∈ col.activeVars, ¬ Utf8.encode (varText v) <:+: octets

theorem withVariables_body (col : Collection) (spec : HttpRequestSpec) :
    (HttpSession.withVariables col spec).body =
      Utf8.encode (col.substitute (fromUtf8Lossy spec.body)).toList := by
  simp only [HttpSession.withVariables, utf8Bytes, Utf8.toUTF8_toList]
  split
  · next same => exact same.symm
  · rfl

/-- Octets without a variable stay as they are exactly if they are a text. -/
theorem withVariables_body_iff {col : Collection} {spec : HttpRequestSpec}
    (none : NoVariable col spec.body) :
    (HttpSession.withVariables col spec).body = spec.body ↔ fromUtf8 spec.body ≠ Option.none := by
  rw [withVariables_body, fromUtf8_ne_none_iff]
  constructor
  · exact fun same => ⟨_, same⟩
  · rintro ⟨text, octets⟩
    have outside : ∀ v ∈ col.activeVars, ¬ varText v <:+: text.toList := fun v member inside =>
      none v member (octets ▸ Utf8.infix_encode inside)
    rw [← octets, fromUtf8Lossy_encode, String.ofList_toList, substitute_none outside]

/- The rest of the request. -/

@[simp] theorem withBodyForm_body (spec : HttpRequestSpec) :
    (HttpSession.withBodyForm spec).body = spec.body := by
  rw [HttpSession.withBodyForm]
  split <;> rfl

@[simp] theorem withCookies_body (jar : CookieJar) (now : Nat) (spec : HttpRequestSpec) :
    (withCookies jar now spec).body = spec.body := by
  rw [withCookies]
  split <;> rfl

namespace HttpSession

/-- The request before the variables and the cookies. -/
def drafted (json : JsonCrate) (s : HttpSession) : Checked String HttpRequestSpec := do
  let body ← decodePayload s.body.textOf s.composerMode
  given <| s.withGraphql json
    { method := s.method.textOf
      url := s.url.textOf
      headers := parseHeaderBlock s.headers.textOf
      body := body
      followRedirects := s.followRedirects
      maxRedirects := s.maxRedirects
      auth := s.auth
      authToken := s.authTokenTa.textOf
      authUser := s.authUserTa.textOf
      authPass := s.authPassTa.textOf
      authKey := s.authKeyTa.textOf
      authValue := s.authValueTa.textOf
      bodyMode := s.bodyMode
      formFields := s.currentForm }

theorem buildSpec_none_iff {json : JsonCrate} {now : Nat} {s : HttpSession} {built : HttpRequestSpec} :
    s.buildSpec json now none = given (.ok built) ↔
      ∃ spec, s.drafted json = given (.ok spec) ∧
        withCookies s.cookies now (withBodyForm spec) = built := by
  rw [← bind_return_ok, buildSpec, drafted, bind_assoc]

theorem buildSpec_some_iff {json : JsonCrate} {now : Nat} {s : HttpSession} {col : Collection}
    {built : HttpRequestSpec} :
    s.buildSpec json now (some col) = given (.ok built) ↔
      ∃ spec, s.drafted json = given (.ok spec) ∧
        withCookies s.cookies now (withBodyForm (withVariables col spec)) = built := by
  rw [← bind_return_ok, buildSpec, drafted, bind_assoc]

end HttpSession

/-- A collection of which no variable stands in the body leaves the body as it is built without one
exactly if its octets are UTF-8. -/
theorem collection_body_iff (json : JsonCrate) (now : Nat) (s : HttpSession) {col : Collection}
    {plain : HttpRequestSpec} (built : s.buildSpec json now none = given (.ok plain))
    (none : NoVariable col plain.body) :
    (∃ spec, s.buildSpec json now (some col) = given (.ok spec) ∧ spec.body = plain.body) ↔
      fromUtf8 plain.body ≠ Option.none := by
  obtain ⟨draft, drafted, rfl⟩ := HttpSession.buildSpec_none_iff.mp built
  rw [withCookies_body, withBodyForm_body] at none ⊢
  rw [← withVariables_body_iff none]
  constructor
  · rintro ⟨spec, run, same⟩
    obtain ⟨draft', drafted', rfl⟩ := HttpSession.buildSpec_some_iff.mp run
    obtain rfl : draft = draft' := by
      rw [drafted] at drafted'
      cases drafted'
      rfl
    rwa [withCookies_body, withBodyForm_body] at same
  · intro same
    refine ⟨_, HttpSession.buildSpec_some_iff.mpr ⟨draft, drafted, rfl⟩, ?_⟩
    rwa [withCookies_body, withBodyForm_body]

/-- The session that is opened, with a body in hexadecimal digits. -/
def hexSession (digits : String) : HttpSession :=
  { savedSession with body := .setText digits, composerMode := .hex }

theorem hexSession_built (digits : String) (octets : Bytes)
    (read : decodePayload (TextArea.setText digits).textOf .hex = given (.ok octets)) :
    ∃ plain, (hexSession digits).buildSpec noJson 0 none = given (.ok plain) ∧
      plain.body = octets := by
  have draft : ∃ spec, (hexSession digits).drafted noJson = given (.ok spec) ∧
      spec.body = octets := by
    rw [HttpSession.drafted, show decodePayload (hexSession digits).body.textOf
      (hexSession digits).composerMode = given (.ok octets) from read]
    exact ⟨_, rfl, rfl⟩
  obtain ⟨spec, drafted, body⟩ := draft
  refine ⟨_, HttpSession.buildSpec_none_iff.mpr ⟨spec, drafted, rfl⟩, ?_⟩
  rw [withCookies_body, withBodyForm_body, body]

theorem collection_body_text : ∃ spec,
    (hexSession "6869").buildSpec noJson 0 (some hostEnvironment) = given (.ok spec) ∧
      spec.body = [0x68, 0x69] := by
  obtain ⟨plain, built, body⟩ := hexSession_built "6869" [0x68, 0x69] rfl
  rw [← body]
  refine (collection_body_iff noJson 0 _ built ?_).mpr ?_
  · rw [body, NoVariable]
    decide
  · rw [body]
    decide

/-- One octet that is no text is replaced, although no variable is there. -/
theorem collection_body_lost :
    ¬ ∀ (json : JsonCrate) (now : Nat) (s : HttpSession) (col : Collection)
      (plain : HttpRequestSpec), s.buildSpec json now none = given (.ok plain) →
      NoVariable col plain.body →
      ∃ spec, s.buildSpec json now (some col) = given (.ok spec) ∧ spec.body = plain.body := by
  intro all
  obtain ⟨plain, built, body⟩ := hexSession_built "ff" [0xff] rfl
  have none : NoVariable (environmentOf []) plain.body := fun v member => by cases member
  obtain ⟨spec, run, same⟩ := all noJson 0 _ (environmentOf []) plain built none
  obtain ⟨draft, drafted, rfl⟩ := HttpSession.buildSpec_some_iff.mp run
  rw [withCookies_body, withBodyForm_body, withVariables_body] at same
  have text := (fromUtf8_eq_some_iff _ _).mpr same
  have unreadable : fromUtf8 [0xff] = Option.none := by decide
  rw [body, unreadable] at text
  cases text

end BitBeak
