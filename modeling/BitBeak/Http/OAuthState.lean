import BitBeak.Http.OAuth
import BitBeak.Http.Words
import BitBeak.Lib.PercentEncoding

/-! The state of an OAuth2 flow, and the callbacks that do not carry it. -/
namespace BitBeak.Http
open Wire

/-- A parameter of the query is a code. -/
def CarriesCode (req : String) : Prop :=
  ∃ query, callbackQuery req = some query ∧
    ∃ part ∈ splitText '&' query, hasPrefix part "code=" = true

/-- The first state among the parameters, read as those of a form are, is the one that was sent. -/
def StateMatches (sent req : String) : Prop :=
  ∃ query, callbackQuery req = some query ∧
    Percent.formValue "state".toList query.toList = some (Utf8.encode sent.toList)

/-- A parameter `code` is a text with that name and an equals sign. -/
theorem codeParam_isSome_iff (query : String) :
    (codeParam query).isSome = true ↔ ∃ part ∈ splitText '&' query, hasPrefix part "code=" = true := by
  have named (part : String) : ((splitOnce '=' part).bind fun kv =>
      if kv.1 = "code" then some kv.2 else none).isSome = true ↔ hasPrefix part "code=" = true := by
    rw [hasPrefix, List.isPrefixOf_iff_prefix]
    constructor
    · intro found
      obtain ⟨v, found⟩ := Option.isSome_iff_exists.mp found
      obtain ⟨⟨k, w⟩, cut, name⟩ := Option.bind_eq_some_iff.mp found
      obtain ⟨rfl, -⟩ := splitOnce_eq_some cut
      split at name
      · next same =>
        refine ⟨w.toList, ?_⟩
        rw [show k = "code" from same]
        simp
      · cases name
    · rintro ⟨v, whole⟩
      have shape : part = "code" ++ String.ofList ['='] ++ String.ofList v := by
        simp [← String.toList_inj, ← whole]
      have outside : '=' ∉ "code".toList := by simp
      rw [shape, splitOnce_append outside]
      rfl
  rw [codeParam, List.findSome?_isSome_iff]
  exact exists_congr fun part => and_congr_right fun _ => named part

theorem carriesCode_iff (req : String) :
    CarriesCode req ↔ ((callbackQuery req).bind codeParam).isSome = true := by
  simp only [CarriesCode, ← codeParam_isSome_iff, Option.isSome_iff_exists, Option.bind_eq_some_iff]
  constructor
  · rintro ⟨query, found, code, named⟩
    exact ⟨code, query, found, named⟩
  · rintro ⟨code, query, found, named⟩
    exact ⟨query, found, code, named⟩

/-- A code comes back from every callback that has one, whatever its state is. -/
theorem waitForCode_isOk_iff {arrived : Bytes} :
    (∃ code, waitForCode ⟨true, some arrived⟩ = .ok code) ↔ CarriesCode (callbackText arrived) := by
  rw [carriesCode_iff]
  cases found : (callbackQuery (callbackText arrived)).bind codeParam <;>
    simp [waitForCode, found]

section
variable (urlencode : String → String) {openBrowser : String → Except String Unit}
  (cfg : OAuthConfig) (port : UInt16) (verifier challenge : String)

/-- The code is exchanged whenever it comes back. -/
theorem loopbackFlow_isOk_iff {arrived : Bytes}
    (opens : openBrowser (authorizeUrl urlencode cfg port (flowState port) challenge) = .ok ()) :
    (∃ posted, loopbackFlow urlencode openBrowser cfg port verifier challenge ⟨true, some arrived⟩ =
      .ok posted) ↔ CarriesCode (callbackText arrived) := by
  rw [← waitForCode_isOk_iff]
  cases run : waitForCode ⟨true, some arrived⟩ <;>
    simp [loopbackFlow, opens, run, Except.mapError, bind, Except.bind, pure, Except.pure]

/-- No code is exchanged that did not come back. -/
theorem loopbackFlow_code {listener : CallbackListener} {posted : TokenRequest}
    (run : loopbackFlow urlencode openBrowser cfg port verifier challenge listener = .ok posted) :
    ∃ code, waitForCode listener = .ok code ∧
      posted = exchangeCode urlencode cfg port code verifier := by
  cases browser : openBrowser (authorizeUrl urlencode cfg port (flowState port) challenge) with
  | error e =>
    simp [loopbackFlow, browser, Except.mapError, bind, Except.bind] at run
  | ok _ =>
    cases back : waitForCode listener with
    | error e => simp [loopbackFlow, browser, back, Except.mapError, bind, Except.bind] at run
    | ok code =>
      simp only [loopbackFlow, browser, back, Except.mapError, bind, Except.bind, pure, Except.pure,
        Except.ok.injEq] at run
      exact ⟨code, rfl, run.symm⟩

/-- A callback is bound to its flow exactly when it carries no code, or the state that was sent. -/
theorem callback_bound_iff (arrived : Bytes) :
    ((∃ code, waitForCode ⟨true, some arrived⟩ = .ok code) ∨
      (∃ posted, loopbackFlow urlencode openBrowser cfg port verifier challenge
        ⟨true, some arrived⟩ = .ok posted) →
      StateMatches (flowState port) (callbackText arrived)) ↔
    (¬ CarriesCode (callbackText arrived) ∨ StateMatches (flowState port) (callbackText arrived)) := by
  rw [← waitForCode_isOk_iff, ← imp_iff_not_or]
  constructor
  · exact fun bound back => bound (.inl back)
  · rintro bound (back | ⟨posted, run⟩)
    · exact bound back
    · obtain ⟨code, back, -⟩ := loopbackFlow_code urlencode cfg port verifier challenge run
      exact bound ⟨code, back⟩

end

/-- The request that any page can make the browser send. -/
def forgedCallback : Bytes := utf8Bytes "GET /?code=x HTTP/1.1\r\n\r\n"

def plainConfig : OAuthConfig where
  clientId := "cid"
  clientSecret := ""
  authUrl := "https://auth.example/authorize"
  tokenUrl := "https://auth.example/token"
  scopes := "openid"

/-- A code without a state is exchanged. -/
theorem forged_code_exchanged :
    waitForCode ⟨true, some forgedCallback⟩ = .ok "x" ∧
    (∃ posted, loopbackFlow id (fun _ => .ok ()) plainConfig 9876 "v" "c"
      ⟨true, some forgedCallback⟩ = .ok posted) ∧
    ¬ StateMatches (flowState 9876) (callbackText forgedCallback) := by
  have query : callbackQuery (callbackText forgedCallback) = some "code=x" := by decide +kernel
  have code : codeParam "code=x" = some "x" := by decide +kernel
  have back : waitForCode ⟨true, some forgedCallback⟩ = .ok "x" := by
    simp [waitForCode, query, code]
  refine ⟨back, ⟨exchangeCode id plainConfig 9876 "x" "v", ?_⟩, ?_⟩
  · rw [loopbackFlow, back]
    rfl
  · rintro ⟨other, found, state⟩
    rw [query] at found
    cases found
    have none : Percent.formValue "state".toList "code=x".toList = none := by decide +kernel
    rw [none] at state
    cases state

end BitBeak.Http
