import BitBeak.Http.OAuthCode
import Mathlib.Data.List.Chain

/-! The tokens that flows leave behind: what is asked for with a stored token, and to whom it is
sent. -/
namespace BitBeak.Http
open BitBeak Wire

structure TokenResponse where
  accessToken : String
  refreshToken : String := ""
  deriving DecidableEq, Repr

structure OAuthStore where
  refreshToken : String := ""
  clientId : String := ""
  tokenUrl : String := ""
  accessToken : String := ""
  deriving DecidableEq, Repr

def refreshAccessToken (urlencode : String → String)
    (tokenUrl clientId clientSecret refreshToken : String) : TokenRequest where
  url := tokenUrl
  body := "grant_type=refresh_token&refresh_token=" ++ urlencode refreshToken ++ "&client_id=" ++
    urlencode clientId ++
    (if clientSecret = "" then "" else "&client_secret=" ++ urlencode clientSecret)

/-- What is outside of a flow: what the server answers, if its thread comes back, the port, the
browser and the callback, the random texts, and whether the store can be written. -/
structure FlowWorld where
  answer : TokenRequest → Option (Except String TokenResponse)
  port : Except String UInt16
  openBrowser : String → Except String Unit
  verifier : String
  challenge : String
  listener : CallbackListener
  writable : Bool

/-- The requests of a flow in order, and what it ends with: a message, and on success the tokens
that are kept. -/
structure FlowEnd where
  requests : List TokenRequest
  result : Except String (String × TokenResponse)

namespace OAuthConfig

def complete (cfg : OAuthConfig) : Bool :=
  !(cfg.clientId = "" || cfg.authUrl = "" || cfg.tokenUrl = "")

def refresh (urlencode : String → String) (cfg : OAuthConfig) (store : OAuthStore) : TokenRequest :=
  refreshAccessToken urlencode cfg.tokenUrl cfg.clientId cfg.clientSecret store.refreshToken

end OAuthConfig

namespace OAuthStore

/-- There is a token, and it is said to be of this client. -/
def refreshes (store : OAuthStore) (cfg : OAuthConfig) : Bool :=
  store.refreshToken ≠ "" && (store.clientId = "" || store.clientId = cfg.clientId)

/-- A response without a refresh token leaves the old one where it is. -/
def keep (store : OAuthStore) (cfg : OAuthConfig) (tok : TokenResponse) : OAuthStore where
  refreshToken := if tok.refreshToken = "" then store.refreshToken else tok.refreshToken
  clientId := cfg.clientId
  tokenUrl := cfg.tokenUrl
  accessToken := tok.accessToken

end OAuthStore

section
variable (urlencode : String → String)

/-- The part of a flow that asks in the browser. -/
def browserFlow (world : FlowWorld) (cfg : OAuthConfig) : FlowEnd :=
  match world.port with
  | .error e => ⟨[], .error e⟩
  | .ok port =>
    match loopbackFlow urlencode world.openBrowser cfg port world.verifier world.challenge
        world.listener with
    | .error e => ⟨[], .error e⟩
    | .ok request =>
      match world.answer request with
      | some (.ok tok) => ⟨[request], .ok ("oauth: access token stored", tok)⟩
      | some (.error e) => ⟨[request], .error ("token exchange: " ++ e)⟩
      | none => ⟨[request], .error "oauth: exchange thread panicked"⟩

/-- `front` is what the fields of an HTTP session in front say. -/
def startOauthFlow (world : FlowWorld) (front : Option OAuthConfig) (store : OAuthStore) :
    FlowEnd :=
  match front with
  | none => ⟨[], .error "need HTTP session"⟩
  | some cfg =>
    if !cfg.complete then
      ⟨[], .error
        "oauth: set Auth User=client_id, Pass=secret, Key=auth_url, Value=token_url"⟩
    else if store.refreshes cfg then
      match world.answer (cfg.refresh urlencode store) with
      | some (.ok tok) =>
        ⟨[cfg.refresh urlencode store], .ok ("oauth: refreshed access token", tok)⟩
      | _ =>
        let rest := browserFlow urlencode world cfg
        ⟨cfg.refresh urlencode store :: rest.requests, rest.result⟩
    else browserFlow urlencode world cfg

/-- The store, with what was kept in it and for which configuration, in order. -/
structure OAuthState where
  store : OAuthStore := {}
  granted : List (OAuthConfig × TokenResponse) := []

/-- One flow. What cannot be written is not kept. -/
def OAuthState.flow (s : OAuthState) (front : Option OAuthConfig) (world : FlowWorld) :
    OAuthState :=
  match front, (startOauthFlow urlencode world front s.store).result with
  | some cfg, .ok (_, tok) =>
    if world.writable then ⟨s.store.keep cfg tok, s.granted ++ [(cfg, tok)]⟩ else s
  | _, _ => s

def OAuthState.run (s : OAuthState) (flows : List (Option OAuthConfig × FlowWorld)) :
    OAuthState :=
  flows.foldl (fun s f => s.flow urlencode f.1 f.2) s

end

/- What the store says, by what was granted. -/

/-- The last grant that brought a refresh token. -/
def lastIssued (granted : List (OAuthConfig × TokenResponse)) :
    Option (OAuthConfig × TokenResponse) :=
  (granted.filter fun g => g.2.refreshToken ≠ "").getLast?

/-- The token is the last that was issued, and all else is of the last grant. -/
structure OAuthState.Recorded (s : OAuthState) : Prop where
  token : s.store.refreshToken = ((lastIssued s.granted).map (·.2.refreshToken)).getD ""
  client : s.store.clientId = ((s.granted.getLast?).map (·.1.clientId)).getD ""
  endpoint : s.store.tokenUrl = ((s.granted.getLast?).map (·.1.tokenUrl)).getD ""
  access : s.store.accessToken = ((s.granted.getLast?).map (·.2.accessToken)).getD ""
  named : ∀ g ∈ s.granted, g.1.clientId ≠ ""

theorem lastIssued_append (granted : List (OAuthConfig × TokenResponse))
    (g : OAuthConfig × TokenResponse) :
    lastIssued (granted ++ [g]) = if g.2.refreshToken = "" then lastIssued granted else some g := by
  unfold lastIssued
  rw [List.filter_append]
  by_cases none : g.2.refreshToken = ""
  · simp [none]
  · simp [none]

section
variable {urlencode : String → String} {s : OAuthState}

theorem OAuthConfig.complete_client {cfg : OAuthConfig} (complete : cfg.complete = true) :
    cfg.clientId ≠ "" := by
  rintro none
  simp [OAuthConfig.complete, none] at complete

/-- A flow that ends well had something to ask with. -/
theorem complete_of_ok {world : FlowWorld} {cfg : OAuthConfig} {store : OAuthStore}
    {message : String} {tok : TokenResponse}
    (went : (startOauthFlow urlencode world (some cfg) store).result = .ok (message, tok)) :
    cfg.complete = true := by
  unfold startOauthFlow at went
  dsimp only at went
  by_cases complete : cfg.complete = true
  · exact complete
  · rw [Bool.not_eq_true] at complete
    rw [complete] at went
    cases went

theorem OAuthState.Recorded.keep (recorded : s.Recorded) {cfg : OAuthConfig} (tok : TokenResponse)
    (named : cfg.clientId ≠ "") :
    (OAuthState.mk (s.store.keep cfg tok) (s.granted ++ [(cfg, tok)])).Recorded where
  token := by
    rw [lastIssued_append, OAuthStore.keep]
    by_cases none : tok.refreshToken = ""
    · simp only [none, if_true]
      exact recorded.token
    · simp only [none, if_false, Option.map_some, Option.getD_some]
  client := by simp [OAuthStore.keep]
  endpoint := by simp [OAuthStore.keep]
  access := by simp [OAuthStore.keep]
  named := by
    intro g member
    rcases List.mem_append.mp member with before | new
    · exact recorded.named g before
    · rw [List.mem_singleton.mp new]
      exact named

theorem recorded_flow (recorded : s.Recorded) (front : Option OAuthConfig) (world : FlowWorld) :
    (s.flow urlencode front world).Recorded := by
  unfold OAuthState.flow
  split
  · next cfg message tok went =>
    split
    · exact recorded.keep tok (OAuthConfig.complete_client (complete_of_ok went))
    · exact recorded
  · exact recorded

theorem recorded_run (recorded : s.Recorded) (flows : List (Option OAuthConfig × FlowWorld)) :
    (s.run urlencode flows).Recorded := by
  induction flows generalizing s with
  | nil => exact recorded
  | cons f flows ih => exact ih (recorded_flow recorded f.1 f.2)

theorem recorded_start : ({} : OAuthState).Recorded := ⟨rfl, rfl, rfl, rfl, nofun⟩

end

/- What is posted. -/

/-- A request posts a refresh token. -/
def Posts (token : String) (request : TokenRequest) : Prop :=
  Percent.formValue "refresh_token".toList request.body.toList = some (Utf8.encode token.toList)

/-- The names in the two forms, and the kinds of grant, are written as they are. -/
theorem plain_names : ∀ name ∈ ["grant_type", "refresh_token", "client_id", "client_secret",
    "authorization_code", "code", "redirect_uri", "code_verifier"],
    Percent.encode name.toList = name.toList := by decide +kernel

theorem encode_ne {name other : String} (apart : other ≠ name) :
    Utf8.encode other.toList ≠ Utf8.encode name.toList :=
  fun same => apart (String.toList_injective (encode_injective same))

section
variable {urlencode : String → String} (encodes : PercentEncodes urlencode)
include encodes

/-- The pairs that both requests end with. -/
def secretPair (cfg : OAuthConfig) : List (List Char × List Char) :=
  if cfg.clientSecret = "" then [] else [("client_secret".toList, cfg.clientSecret.toList)]

theorem refresh_body (cfg : OAuthConfig) (store : OAuthStore) :
    (cfg.refresh urlencode store).body.toList = Percent.writeForm
      (("grant_type".toList, "refresh_token".toList) ::
        ("refresh_token".toList, store.refreshToken.toList) ::
        ("client_id".toList, cfg.clientId.toList) :: secretPair cfg) := by
  have grant := plain_names "grant_type" (by simp)
  have token := plain_names "refresh_token" (by simp)
  have client := plain_names "client_id" (by simp)
  have secret := plain_names "client_secret" (by simp)
  have start : "grant_type=refresh_token&refresh_token=".toList =
      "grant_type".toList ++ '=' :: ("refresh_token".toList ++ '&' ::
        ("refresh_token".toList ++ ['='])) := rfl
  have next : "&client_id=".toList = '&' :: ("client_id".toList ++ ['=']) := rfl
  have last : "&client_secret=".toList = '&' :: ("client_secret".toList ++ ['=']) := rfl
  unfold secretPair OAuthConfig.refresh refreshAccessToken
  split
  · simp only [Percent.writeForm, String.toList_append, encodes _, grant, token, client, start,
      next, String.toList_empty, List.append_assoc, List.cons_append, List.nil_append,
      List.append_nil]
  · simp only [Percent.writeForm, String.toList_append, encodes _, grant, token, client, secret,
      start, next, last, List.append_assoc, List.cons_append, List.nil_append]

theorem exchange_body (cfg : OAuthConfig) (port : UInt16) (code verifier : String) :
    (exchangeCode urlencode cfg port code verifier).body.toList = Percent.writeForm
      (("grant_type".toList, "authorization_code".toList) :: ("code".toList, code.toList) ::
        ("redirect_uri".toList, (redirectUri port).toList) ::
        ("client_id".toList, cfg.clientId.toList) ::
        ("code_verifier".toList, verifier.toList) :: secretPair cfg) := by
  have grant := plain_names "grant_type" (by simp)
  have authorization := plain_names "authorization_code" (by simp)
  have code' := plain_names "code" (by simp)
  have redirect := plain_names "redirect_uri" (by simp)
  have client := plain_names "client_id" (by simp)
  have verifier' := plain_names "code_verifier" (by simp)
  have secret := plain_names "client_secret" (by simp)
  have start : "grant_type=authorization_code&code=".toList =
      "grant_type".toList ++ '=' :: ("authorization_code".toList ++ '&' ::
        ("code".toList ++ ['='])) := rfl
  have second : "&redirect_uri=".toList = '&' :: ("redirect_uri".toList ++ ['=']) := rfl
  have third : "&client_id=".toList = '&' :: ("client_id".toList ++ ['=']) := rfl
  have fourth : "&code_verifier=".toList = '&' :: ("code_verifier".toList ++ ['=']) := rfl
  have last : "&client_secret=".toList = '&' :: ("client_secret".toList ++ ['=']) := rfl
  unfold secretPair exchangeCode
  split
  · simp only [Percent.writeForm, String.toList_append, encodes _, grant, authorization, code',
      redirect, client, verifier', start, second, third, fourth, String.toList_empty,
      List.append_assoc, List.cons_append, List.nil_append, List.append_nil]
  · simp only [Percent.writeForm, String.toList_append, encodes _, grant, authorization, code',
      redirect, client, verifier', secret, start, second, third, fourth, last, List.append_assoc,
      List.cons_append, List.nil_append]

/-- The request with a stored token posts that token, and the one with a code posts none. -/
theorem posts_refresh_iff (cfg : OAuthConfig) (store : OAuthStore) (token : String) :
    Posts token (cfg.refresh urlencode store) ↔ token = store.refreshToken := by
  have grant : Utf8.encode "grant_type".toList ≠ Utf8.encode "refresh_token".toList :=
    encode_ne (by decide)
  have named : Utf8.encode "refresh_token".toList ≠ [] := encode_ne (by decide : _ ≠ "")
  rw [Posts, refresh_body encodes, Percent.formValue_second named grant,
    Option.some.injEq]
  constructor
  · intro same
    exact (String.toList_injective (encode_injective same)).symm
  · rintro rfl
    rfl

theorem posts_exchange (cfg : OAuthConfig) (port : UInt16) (code verifier token : String) :
    ¬ Posts token (exchangeCode urlencode cfg port code verifier) := by
  have grant := encode_ne (by decide : "grant_type" ≠ "refresh_token")
  have code' := encode_ne (by decide : "code" ≠ "refresh_token")
  have redirect := encode_ne (by decide : "redirect_uri" ≠ "refresh_token")
  have client := encode_ne (by decide : "client_id" ≠ "refresh_token")
  have verifier' := encode_ne (by decide : "code_verifier" ≠ "refresh_token")
  have secret := encode_ne (by decide : "client_secret" ≠ "refresh_token")
  have named : Utf8.encode "refresh_token".toList ≠ [] := encode_ne (by decide : _ ≠ "")
  have absent : ∀ p ∈ secretPair cfg, Utf8.encode p.1 ≠ Utf8.encode "refresh_token".toList := by
    intro p member
    unfold secretPair at member
    split at member
    · cases member
    · rw [List.mem_singleton.mp member]
      exact secret
  rw [Posts, exchange_body encodes, Percent.formValue_absent named]
  · nofun
  · exact List.forall_mem_cons.mpr ⟨grant, List.forall_mem_cons.mpr ⟨code',
      List.forall_mem_cons.mpr ⟨redirect, List.forall_mem_cons.mpr ⟨client,
        List.forall_mem_cons.mpr ⟨verifier', absent⟩⟩⟩⟩⟩

/-- What a flow asks in the browser goes to the configured server and posts no stored token. -/
theorem browserFlow_requests (world : FlowWorld) (cfg : OAuthConfig) (token : String) :
    ∀ request ∈ (browserFlow urlencode world cfg).requests,
      request.url = cfg.tokenUrl ∧ ¬ Posts token request := by
  have exchanged : ∀ {port : UInt16} {posted : TokenRequest}, loopbackFlow urlencode
      world.openBrowser cfg port world.verifier world.challenge world.listener = .ok posted →
      ∀ request ∈ [posted], request.url = cfg.tokenUrl ∧ ¬ Posts token request := by
    intro port posted run request member
    obtain ⟨code, -, same⟩ := loopbackFlow_code urlencode cfg port world.verifier world.challenge run
    rw [List.mem_singleton.mp member, same]
    exact ⟨rfl, posts_exchange encodes cfg port code world.verifier token⟩
  unfold browserFlow
  split
  · nofun
  · split
    · nofun
    · next run =>
      split <;> exact exchanged run

/-- A stored token is posted by the flow of the client that it is said to be of. -/
theorem startOauthFlow_requests (world : FlowWorld) (cfg : OAuthConfig) (store : OAuthStore)
    (token : String) :
    (∀ request ∈ (startOauthFlow urlencode world (some cfg) store).requests,
        request.url = cfg.tokenUrl) ∧
      ((∃ request ∈ (startOauthFlow urlencode world (some cfg) store).requests,
          Posts token request) ↔
        cfg.complete = true ∧ store.refreshes cfg = true ∧ token = store.refreshToken) := by
  have browser := browserFlow_requests encodes world cfg token
  have asked := posts_refresh_iff encodes cfg store token
  unfold startOauthFlow
  dsimp only
  by_cases complete : cfg.complete = true
  · rw [complete]
    by_cases refreshes : store.refreshes cfg = true
    · rw [refreshes]
      simp only [Bool.not_true, Bool.false_eq_true, if_false, if_true, true_and]
      split
      · refine ⟨fun request member => ?_, ?_⟩
        · rw [List.mem_singleton.mp member]
          rfl
        · rw [← asked]
          simp
      · refine ⟨fun request member => ?_, ?_⟩
        · rcases List.mem_cons.mp member with first | later
          · rw [first]
            rfl
          · exact (browser request later).1
        · rw [← asked]
          constructor
          · rintro ⟨request, member, posts⟩
            rcases List.mem_cons.mp member with first | later
            · exact first ▸ posts
            · exact absurd posts (browser request later).2
          · exact fun posts => ⟨_, List.mem_cons_self .., posts⟩
    · rw [Bool.not_eq_true] at refreshes
      rw [refreshes]
      simp only [Bool.not_true, Bool.false_eq_true, if_false, false_and, and_false, iff_false]
      exact ⟨fun request member => (browser request member).1,
        fun ⟨request, member, posts⟩ => (browser request member).2 posts⟩
  · rw [Bool.not_eq_true] at complete
    rw [complete]
    simp

omit encodes in
theorem refreshes_iff {s : OAuthState} (recorded : s.Recorded) (cfg : OAuthConfig)
    (token : String) :
    (s.store.refreshes cfg = true ∧ token = s.store.refreshToken) ↔
      ∃ issued last, lastIssued s.granted = some issued ∧ issued.2.refreshToken = token ∧
        s.granted.getLast? = some last ∧ last.1.clientId = cfg.clientId := by
  have stored := recorded.token
  cases found : lastIssued s.granted with
  | none =>
    rw [found] at stored
    simp [OAuthStore.refreshes, stored]
  | some issued =>
    have listed := List.mem_filter.mp (List.mem_of_getLast? found)
    have brought : issued.2.refreshToken ≠ "" := by simpa using listed.2
    obtain ⟨last, here⟩ := Option.isSome_iff_exists.mp
      (List.getLast?_isSome.mpr (List.ne_nil_of_mem listed.1))
    have client := recorded.client
    rw [found] at stored
    rw [here] at client
    have named := recorded.named last (List.mem_of_getLast? here)
    simp only [Option.map_some, Option.getD_some] at stored client
    have asks : s.store.refreshes cfg = true ↔ last.1.clientId = cfg.clientId := by
      simp [OAuthStore.refreshes, stored, client, brought, named]
    rw [asks, stored, here]
    constructor
    · rintro ⟨same, rfl⟩
      exact ⟨issued, last, rfl, rfl, rfl, same⟩
    · rintro ⟨_, _, ⟨⟩, same, ⟨⟩, client'⟩
      exact ⟨client', same.symm⟩

/-- Each grant brings a token, or is for the client of the grant before it. -/
def Renewed (granted : List (OAuthConfig × TokenResponse)) : Prop :=
  granted.IsChain fun g h => h.2.refreshToken = "" → h.1.clientId = g.1.clientId

omit encodes in
theorem renewed_client {granted : List (OAuthConfig × TokenResponse)} (renewed : Renewed granted)
    {issued last : OAuthConfig × TokenResponse} (found : lastIssued granted = some issued)
    (end' : granted.getLast? = some last) : issued.1.clientId = last.1.clientId := by
  induction granted using List.reverseRecOn generalizing last with
  | nil => cases found
  | append_singleton granted g ih =>
    obtain ⟨before, -, linked⟩ := List.isChain_append.mp renewed
    rw [List.getLast?_append_of_ne_nil _ (by simp), List.getLast?_singleton] at end'
    cases end'
    rw [lastIssued_append] at found
    split at found
    · next none =>
      have listed := (List.mem_filter.mp (List.mem_of_getLast? found)).1
      obtain ⟨middle, here⟩ := Option.isSome_iff_exists.mp
        (List.getLast?_isSome.mpr (List.ne_nil_of_mem listed))
      rw [ih before found here]
      exact (linked middle here g (by simp) none).symm
    · cases found
      rfl

/-- After any run a flow posts a stored refresh token if and only if it is for the client of the
last grant; the token is the last that was issued, whoever it was issued to, and goes to the
server that the flow is configured for. It stays with its client if each grant brought a token or
was for the client of the grant before. -/
theorem refresh_token_posted_iff (flows : List (Option OAuthConfig × FlowWorld))
    (cfg : OAuthConfig) (world : FlowWorld) (token : String) :
    let s := OAuthState.run urlencode {} flows
    let requests := (startOauthFlow urlencode world (some cfg) s.store).requests
    (∀ request ∈ requests, request.url = cfg.tokenUrl) ∧
      ((∃ request ∈ requests, Posts token request) ↔
        cfg.complete = true ∧ ∃ issued last, lastIssued s.granted = some issued ∧
          issued.2.refreshToken = token ∧ s.granted.getLast? = some last ∧
            last.1.clientId = cfg.clientId) ∧
      (Renewed s.granted → ∀ request ∈ requests, Posts token request →
        ∃ issued, lastIssued s.granted = some issued ∧ issued.2.refreshToken = token ∧
          issued.1.clientId = cfg.clientId) := by
  intro s requests
  have posted := startOauthFlow_requests encodes world cfg s.store token
  have exact' : (∃ request ∈ requests, Posts token request) ↔
      cfg.complete = true ∧ ∃ issued last, lastIssued s.granted = some issued ∧
        issued.2.refreshToken = token ∧ s.granted.getLast? = some last ∧
          last.1.clientId = cfg.clientId := by
    rw [← refreshes_iff (recorded_run recorded_start flows)]
    exact posted.2
  refine ⟨posted.1, exact', fun renewed request member posts => ?_⟩
  obtain ⟨-, issued, last, found, same, end', client⟩ := exact'.mp ⟨request, member, posts⟩
  exact ⟨issued, found, same, (renewed_client renewed found end').trans client⟩

end

/-- A world in which everything goes well and the server grants this. -/
def granting (tok : TokenResponse) : FlowWorld where
  answer _ := some (.ok tok)
  port := .ok 9876
  openBrowser _ := .ok ()
  verifier := "v"
  challenge := "c"
  listener := ⟨true, some forgedCallback⟩
  writable := true

def otherConfig : OAuthConfig where
  clientId := "other"
  clientSecret := ""
  authUrl := "https://other.example/authorize"
  tokenUrl := "https://other.example/token"
  scopes := "openid"

/-- A second client that is granted no refresh token sends that of the first to its own server. -/
theorem token_of_other_posted :
    ∃ request ∈ (startOauthFlow percentEncode (granting ⟨"b2", ""⟩) (some otherConfig)
        (OAuthState.run percentEncode {} [(some plainConfig, granting ⟨"a1", "ra"⟩),
          (some otherConfig, granting ⟨"b1", ""⟩)]).store).requests,
      Posts "ra" request ∧ request.url = "https://other.example/token" := by
  have posted := refresh_token_posted_iff percentEncode_encodes
    [(some plainConfig, granting ⟨"a1", "ra"⟩), (some otherConfig, granting ⟨"b1", ""⟩)]
    otherConfig (granting ⟨"b2", ""⟩) "ra"
  obtain ⟨request, member, posts⟩ := posted.2.1.mpr ⟨by decide +kernel,
    (plainConfig, ⟨"a1", "ra"⟩), (otherConfig, ⟨"b1", ""⟩), by decide +kernel, rfl,
    by decide +kernel, rfl⟩
  exact ⟨request, member, posts, posted.1 request member⟩

end BitBeak.Http
