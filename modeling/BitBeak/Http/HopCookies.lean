import BitBeak.Http.Credentials

/-! Which of the cookies sent along a redirect chain reach the jar. The loop keeps the
headers of the last reply only, and the jar reads them as if the first URL had sent them. -/
namespace BitBeak.Http
open Wire

/-- Whether an attribute names the domain of the cookie. -/
def namesDomain (text : String) : Bool :=
  let attr := trim text
  if eqIgnoreAsciiCase attr "secure" then false
  else if eqIgnoreAsciiCase attr "httponly" then false
  else
    match splitOnce '=' attr with
    | none => false
    | some (key, _) => eqIgnoreAsciiCase (trim key) "domain"

/-- Whether a `Set-Cookie` text names it. -/
def textNamesDomain (raw : String) : Bool := (splitText ';' raw).tail.any namesDomain

/-- The `Set-Cookie` texts that read as a cookie. -/
def cookieTexts (headers : Headers) : List String :=
  headers.filterMap fun (k, v) =>
    if eqIgnoreAsciiCase k "set-cookie" && ((splitText ';' v).head?.bind (splitOnce '=')).isSome then
      some v
    else none

/-- A cookie apart from the path, which is that of the URL where the text names none. -/
def recordOf (c : Cookie) : Cookie := { c with path := "" }

/-- A cookie apart from what the URL may have given to it. -/
def ownPart (c : Cookie) : Cookie := { c with domain := "", path := "" }

theorem ownPart_attribute (now : Nat) (c : Cookie) (text : String) :
    ownPart (cookieAttribute now c text) = ownPart (cookieAttribute now (ownPart c) text) := by
  unfold cookieAttribute ownPart
  dsimp only
  split
  · rfl
  · split
    · rfl
    · split
      · rfl
      · split
        · rfl
        · split
          · rfl
          · split
            · split
              · split <;> rfl
              · rfl
            · split
              · split <;> rfl
              · split <;> rfl

/-- An attribute that names the domain sets it whatever the cookie was; no other touches it. -/
theorem domain_attribute (now : Nat) (text : String) : ∃ named : String, ∀ c : Cookie,
    (cookieAttribute now c text).domain = if namesDomain text then named else c.domain := by
  unfold cookieAttribute namesDomain
  dsimp only
  split
  · exact ⟨"", fun c => rfl⟩
  · split
    · exact ⟨"", fun c => rfl⟩
    · cases splitOnce '=' (trim text) with
      | none => exact ⟨"", fun c => rfl⟩
      | some pair =>
        obtain ⟨key, val⟩ := pair
        dsimp only
        split
        · exact ⟨_, fun c => rfl⟩
        · refine ⟨"", fun c => ?_⟩
          split
          · rfl
          · split
            · split
              · split <;> rfl
              · rfl
            · split
              · split <;> rfl
              · split <;> rfl

/-- Two readings of one text under two hosts. -/
structure Alike (named : Bool) (host host' : String) (c c' : Cookie) : Prop where
  own : ownPart c = ownPart c'
  same : named = true → c.domain = c'.domain
  given : named = false → c.domain = host ∧ c'.domain = host'

theorem alike_attribute {named : Bool} {host host' : String} {c c' : Cookie} (now : Nat)
    (alike : Alike named host host' c c') (text : String) :
    Alike (named || namesDomain text) host host' (cookieAttribute now c text)
      (cookieAttribute now c' text) := by
  obtain ⟨value, domain⟩ := domain_attribute now text
  constructor
  · rw [ownPart_attribute, alike.own, ← ownPart_attribute]
  · intro either
    rw [domain, domain]
    split
    · rfl
    · next other =>
      rw [Bool.eq_false_of_not_eq_true other, Bool.or_false] at either
      exact alike.same either
  · intro neither
    obtain ⟨before, other⟩ := Bool.or_eq_false_iff.mp neither
    rw [domain, domain, other, if_neg Bool.false_ne_true, if_neg Bool.false_ne_true]
    exact alike.given before

theorem alike_attributes {host host' : String} (now : Nat) (texts : List String) {named : Bool}
    {c c' : Cookie} (alike : Alike named host host' c c') :
    Alike (named || texts.any namesDomain) host host' (texts.foldl (cookieAttribute now) c)
      (texts.foldl (cookieAttribute now) c') := by
  induction texts generalizing named c c' with
  | nil => rwa [List.any_nil, Bool.or_false]
  | cons text rest ih =>
    rw [List.any_cons, ← Bool.or_assoc, List.foldl_cons, List.foldl_cons]
    exact ih (alike_attribute now alike text)

/-- A text as the jar reads it under a URL. -/
def readUnder (url : String) (now : Nat) (raw : String) : Option Cookie :=
  parseSetCookie raw ((urlHost url).getD "") (urlPath url) now

/-- Under two URLs a text is the same cookie but for what they gave. -/
theorem readUnder_alike {raw : String}
    (reads : ((splitText ';' raw).head?.bind (splitOnce '=')).isSome = true) (url url' : String)
    (now : Nat) : ∃ c c', readUnder url now raw = some c ∧ readUnder url' now raw = some c' ∧
      Alike (textNamesDomain raw) ((urlHost url).getD "") ((urlHost url').getD "") c c' := by
  unfold readUnder parseSetCookie textNamesDomain
  cases parts : splitText ';' raw with
  | nil => rw [parts] at reads; cases reads
  | cons nv attrs =>
    rw [parts, List.head?_cons, Option.bind_some] at reads
    obtain ⟨⟨name, value⟩, pair⟩ := Option.isSome_iff_exists.mp reads
    dsimp only
    rw [pair]
    refine ⟨_, _, rfl, rfl, ?_⟩
    rw [List.tail_cons, ← Bool.false_or (attrs.any namesDomain)]
    apply alike_attributes
    exact ⟨rfl, fun named => Bool.noConfusion named, fun _ => ⟨rfl, rfl⟩⟩

theorem Alike.recordOf_iff {named : Bool} {host host' : String} {c c' : Cookie}
    (alike : Alike named host host' c c') :
    recordOf c = recordOf c' ↔ named = true ∨ host = host' := by
  have own := alike.own
  have domains : recordOf c = recordOf c' ↔ c.domain = c'.domain := by
    obtain ⟨name, value, domain, path, secure, httpOnly, sameSite, expiresAt⟩ := c
    simp only [ownPart, recordOf, Cookie.mk.injEq, true_and] at own ⊢
    obtain ⟨rfl, rfl, rest⟩ := own
    exact ⟨fun all => all.2.2.1, fun domain => ⟨rfl, rfl, domain, rest⟩⟩
  rw [domains]
  cases named with
  | true => exact ⟨fun _ => .inl rfl, fun _ => alike.same rfl⟩
  | false =>
    obtain ⟨left, right⟩ := alike.given rfl
    rw [left, right]
    exact ⟨.inr, fun either => either.resolve_left Bool.false_ne_true⟩

theorem setCookies_texts (url : String) (headers : Headers) (now : Nat) :
    CookieJar.setCookies url headers now = (cookieTexts headers).filterMap (readUnder url now) := by
  unfold CookieJar.setCookies cookieTexts
  rw [List.filterMap_filterMap]
  congr 1
  funext ⟨k, v⟩
  dsimp only
  cases eqIgnoreAsciiCase k "set-cookie" with
  | false => rfl
  | true =>
    cases reads : ((splitText ';' v).head?.bind (splitOnce '=')).isSome with
    | true => rfl
    | false =>
      unfold readUnder parseSetCookie
      cases parts : splitText ';' v with
      | nil => rfl
      | cons nv attrs =>
        rw [parts, List.head?_cons, Option.bind_some, Option.isSome_eq_false_iff,
          Option.isNone_iff_eq_none] at reads
        simp only [reads, Option.map_none, if_true, Bool.and_false, Bool.false_eq_true, if_false,
          Option.bind_none]

theorem cookieTexts_read {headers : Headers} {raw : String} (member : raw ∈ cookieTexts headers) :
    ((splitText ';' raw).head?.bind (splitOnce '=')).isSome = true := by
  obtain ⟨⟨k, v⟩, _, kept⟩ := List.mem_filterMap.mp member
  dsimp only at kept
  split at kept
  · next both =>
    cases kept
    exact (Bool.and_eq_true_iff.mp both).2
  · cases kept

/-- Read under two URLs, headers give the same records exactly when the hosts are the same or
every cookie names its domain. -/
theorem recorded_alike_iff (url url' : String) (headers : Headers) (now : Nat) :
    (CookieJar.setCookies url headers now).map recordOf =
        (CookieJar.setCookies url' headers now).map recordOf ↔
      (∀ raw ∈ cookieTexts headers, textNamesDomain raw = true) ∨
        (urlHost url).getD "" = (urlHost url').getD "" := by
  rw [setCookies_texts, setCookies_texts]
  have reads : ∀ raw ∈ cookieTexts headers,
      ((splitText ';' raw).head?.bind (splitOnce '=')).isSome = true :=
    fun _ member => cookieTexts_read member
  generalize cookieTexts headers = texts at reads ⊢
  induction texts with
  | nil => exact ⟨fun _ => .inl fun raw member => absurd member List.not_mem_nil, fun _ => rfl⟩
  | cons raw rest ih =>
    obtain ⟨c, c', first, second, alike⟩ :=
      readUnder_alike (reads raw List.mem_cons_self) url url' now
    have later := ih fun other member => reads other (List.mem_cons_of_mem _ member)
    rw [List.filterMap_cons_some first, List.filterMap_cons_some second, List.map_cons,
      List.map_cons, List.cons.injEq, List.forall_mem_cons]
    exact (and_congr alike.recordOf_iff later).trans and_or_right.symm

theorem length_setCookies (url : String) (headers : Headers) (now : Nat) :
    (CookieJar.setCookies url headers now).length = (cookieTexts headers).length := by
  rw [setCookies_texts]
  have reads : ∀ raw ∈ cookieTexts headers,
      ((splitText ';' raw).head?.bind (splitOnce '=')).isSome = true :=
    fun _ member => cookieTexts_read member
  generalize cookieTexts headers = texts at reads ⊢
  induction texts with
  | nil => rfl
  | cons raw rest ih =>
    obtain ⟨c, _, read, _⟩ := readUnder_alike (reads raw List.mem_cons_self) url url now
    rw [List.filterMap_cons_some read, List.length_cons, List.length_cons,
      ih fun other member => reads other (List.mem_cons_of_mem _ member)]

/- What was sent and what the jar is given. -/

abbrev Hop := HttpRequest × HttpReply

/-- The requests that were answered, with their answers. -/
def Sent.hops (sent : Sent) : List Hop := sent.requests.zip sent.replies

/-- The cookies a hop sets, read under its own URL. -/
def Hop.cookies (later : Nat) (hop : Hop) : List Cookie :=
  CookieJar.setCookies hop.1.url hop.2.headers later

/-- The cookies of all hops, in their order. -/
def Sent.hopCookies (sent : Sent) (later : Nat) : List Cookie :=
  sent.hops.flatMap (Hop.cookies later)

/-- The cookies that are put into the jar after the run. -/
def recordedCookies (jar : CookieJar) (spec : HttpRequestSpec) (sent : Sent) (later : Nat) :
    List Cookie :=
  match sent.result with
  | .ok resp => if jar.enabled then CookieJar.setCookies spec.url resp.headers later else []
  | .error _ => []

/-- The jar after these cookies have been put into it. -/
def jarAfter (jar : CookieJar) (cookies : List Cookie) (later : Nat) : CookieJar :=
  { jar with cookies := (cookies.foldl (CookieJar.put later) jar.cookies).filter (·.liveAt later) }

/-- Every hop's cookies are put into the jar under the host that sent them, and nothing else. -/
def EveryHopRecorded (jar : CookieJar) (spec : HttpRequestSpec) (sent : Sent) (later : Nat) : Prop :=
  (recordedCookies jar spec sent later).map recordOf = (sent.hopCookies later).map recordOf

instance {jar : CookieJar} {spec : HttpRequestSpec} {sent : Sent} {later : Nat} :
    Decidable (EveryHopRecorded jar spec sent later) :=
  inferInstanceAs (Decidable (_ = _))

/-- Whether the jar is shown the last reply. -/
def storesLast (jar : CookieJar) (sent : Sent) : Bool := jar.enabled && sent.result.isOk

/-- The hops of which the jar hears nothing. -/
def unseenHops (jar : CookieJar) (sent : Sent) : List Hop :=
  if storesLast jar sent then sent.hops.dropLast else sent.hops

/-- No hop sets a cookie unseen, and the last one names its domains or has the first host. -/
structure SeenUnderOwnHost (jar : CookieJar) (spec : HttpRequestSpec) (sent : Sent) : Prop where
  unseen : ∀ hop ∈ unseenHops jar sent, cookieTexts hop.2.headers = []
  last : storesLast jar sent = true → ∀ hop ∈ sent.hops.getLast?,
    (∀ raw ∈ cookieTexts hop.2.headers, textNamesDomain raw = true) ∨
      (urlHost spec.url).getD "" = (urlHost hop.1.url).getD ""

/-- What is left of a run that got a response: the last hop is the reply it returns. -/
structure Answered (sent : Sent) : Prop where
  last : ∀ resp, sent.result = .ok resp → ∃ before hop,
    sent.hops = before ++ [hop] ∧ resp.headers = hop.2.headers

theorem redirectLoop_answered {crates : HttpCrates} {server : Server} {spec : HttpRequestSpec}
    {fuel : Nat} {sent : Sent}
    (ran : redirectLoop crates server spec fuel
      { url := spec.url, method := spec.method, body := spec.body } = .ok sent) :
    Answered sent := by
  refine redirectLoop_rule (I := fun st => st.requests.length = st.replies.length)
    (P := Answered) ?_ ?_ ?_ ?_ fuel _ rfl ran
  · rintro st _ _
    exact ⟨fun resp done => by cases done⟩
  · rintro st _
    exact ⟨fun resp done => by cases done⟩
  · intro st reply level
    refine ⟨fun resp done => ?_⟩
    cases done
    refine ⟨st.requests.zip st.replies, (st.request crates spec, reply), ?_, rfl⟩
    exact List.zip_append level
  · intro st reply loc hops level _
    simp only [List.length_append, level, List.length_singleton]

theorem sendRequest_answered {crates : HttpCrates} {server : Server} {spec : HttpRequestSpec}
    {sent : Sent} (ran : sendRequest crates server spec = .ok sent) : Answered sent := by
  unfold sendRequest at ran
  split at ran
  · cases ran
    exact ⟨fun resp done => by cases done⟩
  · exact redirectLoop_answered ran

theorem hopCookies_nil {later : Nat} {hops : List Hop} :
    hops.flatMap (Hop.cookies later) = [] ↔ ∀ hop ∈ hops, cookieTexts hop.2.headers = [] := by
  rw [List.flatMap_eq_nil_iff]
  refine forall₂_congr fun hop _ => ?_
  rw [← List.length_eq_zero_iff, ← List.length_eq_zero_iff, Hop.cookies, length_setCookies]

section

variable {jar : CookieJar} {spec : HttpRequestSpec} {sent : Sent}

/-- A jar that is shown nothing misses the cookies of all hops. -/
theorem unshown_iff (later : Nat) (unshown : storesLast jar sent = false) :
    recordedCookies jar spec sent later = [] ∧
      (EveryHopRecorded jar spec sent later ↔ SeenUnderOwnHost jar spec sent) := by
  have nothing : recordedCookies jar spec sent later = [] := by
    unfold recordedCookies
    unfold storesLast at unshown
    cases result : sent.result with
    | error e => rfl
    | ok resp =>
      rw [result] at unshown
      exact if_neg (ne_true_of_eq_false ((Bool.and_true _).symm.trans unshown))
  refine ⟨nothing, ?_⟩
  have hops : unseenHops jar sent = sent.hops := if_neg (ne_true_of_eq_false unshown)
  rw [EveryHopRecorded, nothing, List.map_nil, eq_comm, List.map_eq_nil_iff, Sent.hopCookies,
    hopCookies_nil]
  constructor
  · intro silent
    refine ⟨?_, fun shown => absurd shown (ne_true_of_eq_false unshown)⟩
    rwa [hops]
  · intro seen
    rw [← hops]
    exact seen.unseen

/-- A jar that is shown the last reply misses what the hops before it set. -/
theorem shown_iff (later : Nat) (answered : Answered sent) {resp : HttpResponse}
    (done : sent.result = .ok resp) (enabled : jar.enabled = true) :
    EveryHopRecorded jar spec sent later ↔ SeenUnderOwnHost jar spec sent := by
  obtain ⟨before, hop, hops, headers⟩ := answered.last resp done
  have shown : storesLast jar sent = true := by
    rw [storesLast, enabled, done]
    rfl
  have recorded : recordedCookies jar spec sent later =
      CookieJar.setCookies spec.url hop.2.headers later := by
    unfold recordedCookies
    rw [done]
    dsimp only
    rw [if_pos enabled, headers]
  have unseen : unseenHops jar sent = before := by
    rw [unseenHops, if_pos shown, hops, List.dropLast_concat]
  have all : sent.hopCookies later = before.flatMap (Hop.cookies later) ++ hop.cookies later := by
    rw [Sent.hopCookies, hops, List.flatMap_append, List.flatMap_singleton]
  have final : sent.hops.getLast? = some hop := by
    rw [hops, List.getLast?_concat]
  have own := recorded_alike_iff spec.url hop.1.url hop.2.headers later
  constructor
  · intro every
    rw [EveryHopRecorded, recorded, all] at every
    have none : before.flatMap (Hop.cookies later) = [] := by
      have lengths := congrArg List.length every
      rw [List.length_map, List.length_map, List.length_append, Hop.cookies, length_setCookies,
        length_setCookies] at lengths
      exact List.length_eq_zero_iff.mp (by omega)
    rw [none, List.nil_append] at every
    constructor
    · rw [unseen]
      exact hopCookies_nil.mp none
    · rw [final]
      rintro _ _ ⟨⟩
      exact own.mp every
  · intro seen
    have none : before.flatMap (Hop.cookies later) = [] := hopCookies_nil.mpr (unseen ▸ seen.unseen)
    rw [EveryHopRecorded, recorded, all, none, List.nil_append]
    exact own.mpr (seen.last shown hop final)

end

/-- After any run the jar holds what the cookies it was shown leave there, and these are the
cookies of all hops, each under the host that sent it, exactly when no hop sets a cookie
unseen and the last one names its domains or has the first host. -/
theorem every_hop_recorded_iff {crates : HttpCrates} {engine : Engine} {server : Server}
    {jar jar' : CookieJar} {now later : Nat} {script : String} {env : List (String × String)}
    {drafted spec : HttpRequestSpec} {sent : Sent}
    (edited : runPreScript engine script (withCookies jar now drafted) env = some spec)
    (ran : sendNow crates engine server jar now later script env drafted = .ok (some sent, jar')) :
    jar' = (if storesLast jar sent then jarAfter jar (recordedCookies jar spec sent later) later
        else jar) ∧
      (EveryHopRecorded jar spec sent later ↔ SeenUnderOwnHost jar spec sent) := by
  obtain ⟨done, after⟩ := sendNow_sent edited ran
  have answered := sendRequest_answered done
  cases shown : storesLast jar sent with
  | false =>
    refine ⟨?_, (unshown_iff later shown).2⟩
    rw [after, if_neg Bool.false_ne_true]
    unfold storesLast at shown
    cases result : sent.result with
    | error e => rfl
    | ok resp =>
      rw [result] at shown
      have off : jar.enabled = false := (Bool.and_true _).symm.trans shown
      simp only [CookieJar.storeFromResponse, off, Bool.not_false, if_true]
  | true =>
    obtain ⟨enabled, ok⟩ := Bool.and_eq_true_iff.mp shown
    cases result : sent.result with
    | error e => rw [result] at ok; cases ok
    | ok resp =>
      refine ⟨?_, shown_iff later answered result enabled⟩
      rw [after, if_pos rfl]
      unfold recordedCookies
      rw [result]
      simp only [CookieJar.storeFromResponse, jarAfter, enabled, Bool.not_true, Bool.false_eq_true,
        if_false, if_true]

/- Runs with parsers that take every header and plain URLs. -/

def openJar : CookieJar where
  enabled := true
  cookies := []

def shopRequest : HttpRequestSpec := { url := "https://shop.example/", headers := [] }

/-- A server that sets a cookie and redirects nobody. -/
def greeting : Server := fun _ => some { status := 200, headers := [("set-cookie", "sid=a1")] }

theorem single_hop_recorded : ∃ sent jar',
    sendNow plainCrates (fun _ _ _ => none) greeting openJar 0 0 "" [] shopRequest =
      .ok (some sent, jar') ∧ EveryHopRecorded openJar shopRequest sent 0 ∧
      jar'.cookies = [{ name := "sid", value := "a1", domain := "shop.example", path := "/" }] := by
  have edited : runPreScript (fun _ _ _ => none) "" (withCookies openJar 0 shopRequest) [] =
      some shopRequest := by
    decide +kernel
  have ran : sendNow plainCrates (fun _ _ _ => none) greeting openJar 0 0 "" [] shopRequest =
      .ok (some _, _) := rfl
  refine ⟨_, _, ran, (every_hop_recorded_iff edited ran).2.mpr ⟨?_, fun _ => ?_⟩, ?_⟩
  · decide +kernel
  · decide +kernel
  · decide +kernel

/-- A server that sets a cookie, sends the client to another host and sets one there. -/
def handover : Server := fun reqs =>
  if reqs.length = 1 then
    some { status := 302, headers := [("set-cookie", "sid=a1"), ("location", "https://pay.example/")] }
  else some { status := 200, headers := [("set-cookie", "tok=b2")] }

theorem handover_cookie_lost : ∃ sent jar',
    sendNow plainCrates (fun _ _ _ => none) handover openJar 0 0 "" [] shopRequest =
      .ok (some sent, jar') ∧ ¬ EveryHopRecorded openJar shopRequest sent 0 ∧
      jar'.cookies = [{ name := "tok", value := "b2", domain := "shop.example", path := "/" }] := by
  exact ⟨_, _, rfl, by decide +kernel, by decide +kernel⟩

end BitBeak.Http
