import BitBeak.Http.Redirects
import BitBeak.Http.Session
import Mathlib.Data.Set.Finite.Basic

/-! Which requests of a run carry cookies of the jar and the configured authentication. The
headers are made once, for the first URL, and go unchanged to wherever the server redirects. -/
namespace BitBeak.Http
open Wire

/-- The cookie header has the pair of the cookie among its parts. -/
def CarriesCookie (headers : Headers) (c : Cookie) : Prop :=
  ∃ parts, ("cookie", "; ".intercalate parts) ∈ headers ∧ c.name ++ "=" ++ c.value ∈ parts

/-- The headers have the one that the configured authentication adds. -/
def CarriesAuth (crates : HttpCrates) (spec : HttpRequestSpec) (headers : Headers) : Prop :=
  ∃ name value, authHeader crates spec = some (name, value) ∧
    (toAsciiLowercase name, value) ∈ headers

/-- The jar gives the cookie to a request for the URL. -/
def Selects (jar : CookieJar) (url : String) (now : Nat) (c : Cookie) : Prop :=
  jar.enabled = true ∧ ∃ host, urlHost url = some host ∧ CookieJar.selects url now host c = true

def SameOrigin (crates : HttpCrates) (a b : String) : Prop :=
  (crates.uri a).map (fun uri => (uri.scheme, uri.host)) =
    (crates.uri b).map (fun uri => (uri.scheme, uri.host))

/-- Cookies of the jar go only where the jar selects them, and the authentication leaves
the origin of the first request on no hop. -/
structure CredentialsStay (crates : HttpCrates) (jar : CookieJar) (now : Nat)
    (spec : HttpRequestSpec) (sent : Sent) : Prop where
  cookies : ∀ req ∈ sent.requests, ∀ c ∈ jar.cookies, CarriesCookie req.headers c →
    Selects jar req.url now c
  auth : ∀ (i : Nat) (first hop : HttpRequest), sent.requests[0]? = some first →
    sent.requests[i + 1]? = some hop → CarriesAuth crates spec hop.headers →
      SameOrigin crates first.url hop.url

/-- The request that is sent first may carry its cookies, and if a redirect can be followed
it carries no credentials at all. -/
def StaysHome (crates : HttpCrates) (jar : CookieJar) (now : Nat) (spec : HttpRequestSpec) : Prop :=
  ∀ ready, withFormBody crates (applyAuth crates spec) = some ready → crates.uri ready.url ≠ none →
    (∀ c ∈ jar.cookies, CarriesCookie (headerMap crates ready.headers) c →
      Selects jar ready.url now c) ∧
    (ready.followRedirects = true → 0 < ready.maxRedirects →
      (∀ c ∈ jar.cookies, ¬ CarriesCookie (headerMap crates ready.headers) c) ∧
        ¬ CarriesAuth crates spec (headerMap crates ready.headers))

/-- A secure cookie is selected for no URL but those of `https`. -/
theorem selects_secure {jar : CookieJar} {url : String} {now : Nat} {c : Cookie}
    (selected : Selects jar url now c) (secure : c.secure = true) :
    hasPrefix url "https://" = true := by
  obtain ⟨_, host, _, chosen⟩ := selected
  simp only [CookieJar.selects, Bool.and_eq_true, secure, Bool.not_true, Bool.false_or] at chosen
  exact chosen.1.1.2

/- Where an unfriendly server redirects to: a host that is new to the jar and to the request. -/

def strangeHost (n : Nat) : String := String.ofList (List.replicate (n + 1) 'a')

def strangeUrl (n : Nat) : String := "http://" ++ strangeHost n ++ "/"

/-- URLs of plain hosts parse. -/
def HttpCrates.ParsesHosts (crates : HttpCrates) : Prop :=
  ∀ n, crates.uri (strangeUrl n) =
    some { scheme := some "http", authority := some (strangeHost n), host := some (strangeHost n) }

theorem strangeHost_injective : Function.Injective strangeHost := by
  intro m n same
  have lists := congrArg String.toList same
  have lengths := congrArg List.length lists
  simpa [strangeHost] using lengths

theorem strangeHost_fresh (texts : List String) : ∃ n, strangeHost n ∉ texts := by
  obtain ⟨_, ⟨n, rfl⟩, outside⟩ :=
    (Set.infinite_range_of_injective strangeHost_injective).exists_notMem_finite
      texts.finite_toSet
  exact ⟨n, outside⟩

theorem mem_strangeHost {n : Nat} {ch : Char} (member : ch ∈ (strangeHost n).toList) : ch = 'a' := by
  rw [strangeHost, String.toList_ofList] at member
  exact List.eq_of_mem_replicate member

theorem urlRest_http (rest : String) : urlRest ("http://" ++ rest) = some rest := by
  have other : stripPrefix ("http://" ++ rest) "https://" = none := by
    have differs : "https://".toList.isPrefixOf ("http://" ++ rest).toList = false := by
      rw [String.toList_append]
      rfl
    rw [stripPrefix, differs]
    rfl
  have here : stripPrefix ("http://" ++ rest) "http://" = some rest := by
    have starts : "http://".toList.isPrefixOf ("http://" ++ rest).toList = true := by
      rw [String.toList_append]
      rfl
    rw [stripPrefix, starts, if_pos rfl, String.toList_append, List.drop_left, String.ofList_toList]
  rw [urlRest, other]
  exact here

theorem textBefore_strange (n : Nat) :
    textBefore '/' (strangeHost n ++ "/") = strangeHost n := by
  rw [textBefore, String.toList_append, List.takeWhile_append_of_pos, ← String.toList_inj,
    String.toList_ofList]
  · exact List.append_nil _
  · intro ch member
    rw [mem_strangeHost member]
    decide

theorem urlHost_strange (n : Nat) : urlHost (strangeUrl n) = some (strangeHost n) := by
  have plain : ∀ ch ∈ (strangeHost n).toList, ch = 'a' := fun ch => mem_strangeHost
  have query : textBefore '?' (strangeHost n) = strangeHost n := by
    rw [textBefore, List.takeWhile_eq_self_iff.mpr, String.ofList_toList]
    intro ch member
    rw [plain ch member]
    decide
  have bracket : stripPrefix (strangeHost n) "[" = none := by
    have letter : "[".toList.isPrefixOf (strangeHost n).toList = false := by
      simp only [strangeHost, String.toList_ofList]
      rfl
    rw [stripPrefix, letter]
    rfl
  have port : textBeforeLast ':' (strangeHost n) = strangeHost n := by
    refine if_neg ?_
    intro colon
    exact absurd (plain _ colon) (by decide)
  have lower : toAsciiLowercase (strangeHost n) = strangeHost n := by
    rw [toAsciiLowercase, strangeHost, String.toList_ofList, List.map_replicate]
    rfl
  rw [urlHost, strangeUrl, String.append_assoc, urlRest_http, Option.map_some]
  dsimp only
  rw [textBefore_strange, query, bracket]
  dsimp only
  rw [port, lower]

theorem domainMatches_strange {n : Nat} {domain : String}
    (other : strangeHost n ≠ toAsciiLowercase (trimStart '.' domain)) :
    domainMatches domain (strangeHost n) = false := by
  unfold domainMatches
  dsimp only
  rw [Bool.or_eq_false_iff]
  constructor
  · exact beq_eq_false_iff_ne.mpr other
  · rw [Bool.eq_false_iff]
    intro ends
    have dots : '.' ∈ (strangeHost n).toList := by
      refine (List.isSuffixOf_iff_suffix.mp ends).mem ?_
      rw [String.toList_append]
      exact List.mem_append_left _ (by decide)
    exact absurd (mem_strangeHost dots) (by decide)

section

variable {crates : HttpCrates} {engine : Engine} {jar : CookieJar} {now later : Nat}
  {script : String} {env : List (String × String)} {drafted spec ready : HttpRequestSpec}

/-- The first request goes out whenever its URL parses. -/
theorem first_request (server : Server)
    (built : withFormBody crates (applyAuth crates spec) = some ready)
    (parses : crates.uri ready.url ≠ none) (silent : ∀ reqs, server reqs = none) :
    sendRequest crates server spec = .ok
      { result := .error .exchange
        requests := [HopState.request crates ready
          { url := ready.url, method := ready.method, body := ready.body }]
        replies := [] } := by
  rw [sendRequest, built]
  dsimp only
  unfold redirectLoop
  split
  · next absent => exact absurd absent parses
  · dsimp only
    rw [silent]
    rfl

/-- A server that redirects the first request to a strange host and then says no more. -/
def lure (n : Nat) : Server := fun reqs =>
  if reqs.length = 1 then some { status := 302, headers := [("location", strangeUrl n)] } else none

theorem lured_request (contract : crates.ParsesHosts) (n : Nat)
    (built : withFormBody crates (applyAuth crates spec) = some ready)
    (parses : crates.uri ready.url ≠ none) (follows : ready.followRedirects = true)
    (limit : 0 < ready.maxRedirects) :
    ∃ sent, sendRequest crates (lure n) spec = .ok sent ∧
      ∃ first hop, sent.requests = [first, hop] ∧ first.url = ready.url ∧ hop.url = strangeUrl n ∧
        hop.headers = headerMap crates ready.headers := by
  have location : headerValue "location" [("location", strangeUrl n)] = some (strangeUrl n) := by
    have same : eqIgnoreAsciiCase "location" "location" = true := beq_self_eq_true _
    simp only [headerValue, List.find?_cons, same, Option.map_some]
  have target : resolveLocation crates ready.url (strangeUrl n) = strangeUrl n := by
    refine if_pos (.inl ?_)
    rw [strangeUrl, hasPrefix, String.append_assoc, String.toList_append]
    rfl
  rw [sendRequest, built]
  dsimp only
  unfold redirectLoop
  split
  · next absent => exact absurd absent parses
  · simp only [lure, List.nil_append, List.length_singleton, if_true]
    have followed : ready.followRedirects = true ∧ isRedirect 302 = true ∧ 0 < ready.maxRedirects :=
      ⟨follows, rfl, limit⟩
    rw [if_pos followed, location]
    dsimp only
    rw [target]
    unfold redirectLoop
    rw [show checkedIncr 0 = .ok 1 from rfl, ok_bind]
    dsimp only
    rw [contract n]
    exact ⟨_, rfl, _, _, rfl, rfl, rfl, rfl⟩

/-- The requests of any run of the client. -/
theorem sendRequest_sameHeaders {server : Server} {sent : Sent}
    (built : withFormBody crates (applyAuth crates spec) = some ready)
    (ran : sendRequest crates server spec = .ok sent) :
    SameHeaders crates ready sent.requests sent.replies := by
  rw [sendRequest, built] at ran
  exact redirectLoop_sameHeaders ran

/-- Where no redirect can be followed there is one request at most. -/
theorem single_request {server : Server} {sent : Sent}
    (built : withFormBody crates (applyAuth crates spec) = some ready)
    (stays : ¬ (ready.followRedirects = true ∧ 0 < ready.maxRedirects))
    (ran : sendRequest crates server spec = .ok sent) : sent.requests.length ≤ 1 := by
  rw [sendRequest, built] at ran
  dsimp only at ran
  unfold redirectLoop at ran
  split at ran
  · cases ran
    exact Nat.zero_le _
  · dsimp only at ran
    split at ran
    · cases ran
      exact Nat.le_refl _
    · rw [if_neg (fun follow => stays ⟨follow.1, follow.2.2⟩)] at ran
      cases ran
      exact Nat.le_refl _

/-- Without a URL that parses there is none. -/
theorem no_request {server : Server} {sent : Sent}
    (built : withFormBody crates (applyAuth crates spec) = some ready)
    (absent : crates.uri ready.url = none)
    (ran : sendRequest crates server spec = .ok sent) : sent.requests = [] := by
  rw [sendRequest, built] at ran
  dsimp only at ran
  unfold redirectLoop at ran
  rw [absent] at ran
  cases ran
  rfl

theorem staysHome_credentialsStay {server : Server} {sent : Sent}
    (home : StaysHome crates jar now spec) (ran : sendRequest crates server spec = .ok sent) :
    CredentialsStay crates jar now spec sent := by
  cases built : withFormBody crates (applyAuth crates spec) with
  | none =>
    rw [sendRequest, built] at ran
    cases ran
    constructor
    · intro req member
      cases member
    · intro i first hop found
      cases found
  | some ready =>
    by_cases absent : crates.uri ready.url = none
    · have nothing := no_request built absent ran
      constructor
      · intro req member
        rw [nothing] at member
        cases member
      · intro i first hop found
        rw [nothing] at found
        cases found
    · obtain ⟨fits, clean⟩ := home ready built absent
      have same := sendRequest_sameHeaders built ran
      by_cases follows : ready.followRedirects = true ∧ 0 < ready.maxRedirects
      · obtain ⟨noCookie, noAuth⟩ := clean follows.1 follows.2
        constructor
        · intro req member c inJar carries
          obtain ⟨i, found⟩ := List.mem_iff_getElem?.mp member
          rw [(same i req found).1] at carries
          exact absurd carries (noCookie c inJar)
        · intro i first hop _ found carries
          rw [(same _ hop found).1] at carries
          exact absurd carries noAuth
      · have short := single_request built follows ran
        constructor
        · intro req member c inJar carries
          obtain ⟨i, found⟩ := List.mem_iff_getElem?.mp member
          have inside := (List.getElem?_eq_some_iff.mp found).1
          have first : i = 0 := by omega
          subst first
          obtain ⟨headers, url⟩ := same 0 req found
          rw [headers] at carries
          rw [url]
          exact fits c inJar carries
        · intro i first hop _ found
          have inside := (List.getElem?_eq_some_iff.mp found).1
          omega

theorem credentialsStay_staysHome (contract : crates.ParsesHosts)
    (stay : ∀ server sent, sendRequest crates server spec = .ok sent →
      CredentialsStay crates jar now spec sent) :
    StaysHome crates jar now spec := by
  intro ready built parses
  constructor
  · intro c inJar carries
    have first := stay _ _ (first_request (fun _ => none) built parses (fun _ => rfl))
    exact first.cookies _ (List.mem_singleton_self _) c inJar carries
  · intro follows limit
    obtain ⟨n, fresh⟩ := strangeHost_fresh
      (((crates.uri ready.url).bind Uri.host).toList ++
        jar.cookies.map fun c => toAsciiLowercase (trimStart '.' c.domain))
    obtain ⟨sent, ran, first, hop, requests, from', to', headers⟩ :=
      lured_request contract n built parses follows limit
    have stays := stay _ sent ran
    constructor
    · intro c inJar carries
      have member : hop ∈ sent.requests := by
        rw [requests]
        exact List.mem_cons_of_mem _ (List.mem_singleton_self _)
      rw [← headers] at carries
      obtain ⟨_, host, found, chosen⟩ := stays.cookies hop member c inJar carries
      rw [to', urlHost_strange] at found
      cases found
      have other : strangeHost n ≠ toAsciiLowercase (trimStart '.' c.domain) := fun same =>
        fresh (List.mem_append_right _ (List.mem_map.mpr ⟨c, inJar, same.symm⟩))
      simp only [CookieJar.selects, domainMatches_strange other, Bool.and_false, Bool.false_and,
        Bool.false_eq_true] at chosen
    · intro carries
      rw [← headers] at carries
      have origin := stays.auth 0 first hop (by rw [requests]; rfl) (by rw [requests]; rfl) carries
      rw [SameOrigin, from', to', contract n] at origin
      obtain ⟨uri, found, same⟩ := Option.map_eq_some_iff.mp origin
      refine fresh (List.mem_append_left _ ?_)
      rw [found, Option.bind_some, (Prod.mk.inj same).2]
      exact List.mem_singleton_self _

/-- Against every server the credentials stay where they belong exactly when the request, as
the script left it, may carry its cookies to its URL and either carries no credentials or
follows no redirect. -/
theorem credentials_stay_iff (contract : crates.ParsesHosts)
    (edited : runPreScript engine script (withCookies jar now drafted) env = some spec) :
    (∀ server later sent jar', sendNow crates engine server jar now later script env drafted =
      .ok (some sent, jar') → CredentialsStay crates jar now spec sent) ↔
        StaysHome crates jar now spec := by
  constructor
  · intro stay
    apply credentialsStay_staysHome contract
    intro server sent ran
    obtain ⟨jar', done⟩ : ∃ jar', sendNow crates engine server jar now 0 script env drafted =
        .ok (some sent, jar') := by
      unfold sendNow
      rw [edited]
      dsimp only
      rw [ran, ok_bind]
      split <;> exact ⟨_, rfl⟩
    exact stay server 0 sent jar' done
  · intro home server later sent jar' ran
    exact staysHome_credentialsStay home (sendNow_sent edited ran).1

end

/- Runs with parsers that take every header and plain URLs. -/

def plainCrates : HttpCrates where
  uri url := (urlRest url).map fun rest =>
    { scheme := some (if hasPrefix url "https://" then "https" else "http")
      authority := some (textBefore '/' rest)
      host := some (textBefore '/' rest) }
  validMethod _ := true
  validHeaderName _ := true
  validHeaderValue _ := true
  urlencode text := text
  base64 text := text
  readFile _ := none
  fileName _ := none
  boundaryId := 0

theorem plainCrates_parses : plainCrates.ParsesHosts := by
  intro n
  have rest : urlRest (strangeUrl n) = some (strangeHost n ++ "/") := by
    rw [strangeUrl, String.append_assoc, urlRest_http]
  have scheme : hasPrefix (strangeUrl n) "https://" = false := by
    rw [strangeUrl, hasPrefix, String.append_assoc, String.toList_append]
    rfl
  simp only [plainCrates, rest, scheme, Option.map_some, textBefore_strange, if_false,
    Bool.false_eq_true]

theorem bare_request_stays : ∃ sent jar',
    sendNow plainCrates (fun _ _ _ => none) (lure 0) CookieJar.empty 0 0 "" [] {} =
      .ok (some sent, jar') ∧ CredentialsStay plainCrates CookieJar.empty 0 {} sent := by
  have home : StaysHome plainCrates CookieJar.empty 0 {} := by
    intro ready built _
    refine ⟨fun c inJar => absurd inJar List.not_mem_nil, fun _ _ => ⟨fun c inJar => ?_, ?_⟩⟩
    · exact absurd inJar List.not_mem_nil
    · rintro ⟨name, value, configured, _⟩
      cases configured
  have edited : runPreScript (fun _ _ _ => none) "" (withCookies CookieJar.empty 0 {}) [] =
      some {} := by
    decide +kernel
  obtain ⟨sent, jar', ran⟩ : ∃ sent jar',
      sendNow plainCrates (fun _ _ _ => none) (lure 0) CookieJar.empty 0 0 "" [] {} =
        .ok (some sent, jar') := ⟨_, _, rfl⟩
  exact ⟨sent, jar', ran,
    (credentials_stay_iff plainCrates_parses edited).mpr home _ 0 sent jar' ran⟩

/-- A jar with a secure cookie of one host. -/
def secureJar : CookieJar where
  enabled := true
  cookies := [{ name := "tok", value := "secret", domain := "api.example.com", path := "/",
                secure := true }]

def apiRequest : HttpRequestSpec := { url := "https://api.example.com/", headers := [] }

theorem secure_cookie_follows_redirect : ∃ sent jar',
    sendNow plainCrates (fun _ _ _ => none) (lure 0) secureJar 0 0 "" [] apiRequest =
      .ok (some sent, jar') ∧
    ¬ CredentialsStay plainCrates secureJar 0 (withCookies secureJar 0 apiRequest) sent := by
  have edited : runPreScript (fun _ _ _ => none) "" (withCookies secureJar 0 apiRequest) [] =
      some { apiRequest with headers := [("Cookie", "tok=secret")] } := by
    decide +kernel
  have built : withFormBody plainCrates (applyAuth plainCrates
      { apiRequest with headers := [("Cookie", "tok=secret")] }) =
        some { apiRequest with headers := [("Cookie", "tok=secret")] } := rfl
  obtain ⟨sent, ran, first, hop, requests, _, url, headers⟩ :=
    lured_request plainCrates_parses 0 built (by decide +kernel) rfl (by decide)
  obtain ⟨jar', done⟩ : ∃ jar', sendNow plainCrates (fun _ _ _ => none) (lure 0) secureJar 0 0 "" []
      apiRequest = .ok (some sent, jar') := by
    unfold sendNow
    rw [edited]
    dsimp only
    rw [ran, ok_bind]
    cases sent.result <;> exact ⟨_, rfl⟩
  refine ⟨sent, jar', done, ?_⟩
  intro stays
  have member : hop ∈ sent.requests := by
    rw [requests]
    exact List.mem_cons_of_mem _ (List.mem_singleton_self _)
  have carries : CarriesCookie hop.headers
      { name := "tok", value := "secret", domain := "api.example.com", path := "/",
        secure := true } := by
    rw [headers]
    exact ⟨["tok=secret"], by decide +kernel, by decide +kernel⟩
  have selected := stays.cookies hop member _ (List.mem_singleton_self _) carries
  rw [url] at selected
  exact absurd (selects_secure selected rfl) (by decide +kernel)

end BitBeak.Http
