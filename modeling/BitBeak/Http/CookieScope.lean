import BitBeak.Http.Credentials
import Mathlib.Data.List.DropRight

/-! The requests to which the jar attaches a cookie, against the scope that the cookie has: the hosts
below its domain, and the paths below its own, segment by segment. -/
namespace BitBeak.Http
open CookieJar

/- The scope. -/

/-- The path of a request for the URL: it ends where the query or the fragment begins. -/
def requestPath (url : String) : String :=
  match ((urlRest url).getD url).toList.dropWhile (· ∉ ['/', '?', '#']) with
  | '/' :: rest => String.ofList ('/' :: rest.takeWhile (· ∉ ['?', '#']))
  | _ => "/"

/-- The host is the domain or stands below it. -/
def DomainMatch (domain host : String) : Prop :=
  let d := (toAsciiLowercase (trimStart '.' domain)).toList
  host.toList = d ∨ ∃ sub, host.toList = sub ++ '.' :: d

/-- The path begins with the path of the cookie, which ends there with a segment. -/
def PathMatch (cookiePath path : String) : Prop :=
  ∃ rest, path.toList = cookiePath.toList ++ rest ∧
    (rest = [] ∨ cookiePath.toList.getLast? = some '/' ∨ rest.head? = some '/')

/-- All that a cookie asks of a request besides the path. -/
structure Addressed (url : String) (now : Nat) (host : String) (c : Cookie) : Prop where
  unexpired : ∀ time, c.expiresAt = some time → now < time
  secure : c.secure = true → hasPrefix url "https://" = true
  domain : DomainMatch c.domain host

/-- The cookie is to be attached to a request for the URL. -/
def InScope (url : String) (now : Nat) (c : Cookie) : Prop :=
  ∃ host, urlHost url = some host ∧ Addressed url now host c ∧ PathMatch c.path (requestPath url)

/- What the jar looks at. -/

theorem liveAt_iff (now : Nat) (c : Cookie) :
    c.liveAt now = true ↔ ∀ time, c.expiresAt = some time → now < time := by
  simp [Cookie.liveAt, Option.all_eq_true]

theorem domainMatches_iff (domain host : String) :
    domainMatches domain host = true ↔ DomainMatch domain host := by
  simp only [domainMatches, DomainMatch, Bool.or_eq_true, beq_iff_eq, hasSuffix,
    List.isSuffixOf_iff_suffix, ← String.toList_inj]
  apply or_congr Iff.rfl
  constructor
  · rintro ⟨sub, whole⟩
    exact ⟨sub, by rw [← whole]; simp⟩
  · rintro ⟨sub, whole⟩
    exact ⟨sub, by rw [whole]; simp⟩

theorem selects_iff (url : String) (now : Nat) (host : String) (c : Cookie) :
    selects url now host c = true ↔
      Addressed url now host c ∧ c.path.toList <+: (urlPath url).toList := by
  have secure : (!c.secure || hasPrefix url "https://") = true ↔
      (c.secure = true → hasPrefix url "https://" = true) := by
    cases c.secure <;> simp
  rw [selects, Bool.and_eq_true, Bool.and_eq_true, Bool.and_eq_true, liveAt_iff, secure,
    domainMatches_iff,
    show hasPrefix (urlPath url) c.path = true ↔ c.path.toList <+: (urlPath url).toList from
      List.isPrefixOf_iff_prefix]
  constructor
  · rintro ⟨⟨⟨unexpired, secure⟩, domain⟩, path⟩
    exact ⟨⟨unexpired, secure, domain⟩, path⟩
  · rintro ⟨⟨unexpired, secure, domain⟩, path⟩
    exact ⟨⟨⟨unexpired, secure⟩, domain⟩, path⟩

/- Paths. -/

theorem takeWhile_prefix_of_imp {α : Type} {p q : α → Bool} (weaker : ∀ a, p a = true → q a = true)
    (l : List α) : l.takeWhile p <+: l.takeWhile q := by
  induction l with
  | nil => exact List.prefix_rfl
  | cons a l ih =>
    by_cases here : p a = true
    · simpa [List.takeWhile_cons, here, weaker a here, List.cons_prefix_cons] using ih
    · simp [List.takeWhile_cons, here]

theorem dropWhile_stop {α : Type} {p q : α → Bool} (weaker : ∀ a, p a = true → q a = true)
    {l t : List α} {c : α} (found : l.dropWhile p = c :: t) (stop : q c = false) :
    l.dropWhile q = c :: t := by
  induction l with
  | nil => cases found
  | cons a l ih =>
    by_cases here : p a = true
    · rw [List.dropWhile_cons_of_pos here] at found
      rw [List.dropWhile_cons_of_pos (weaker a here), ih found]
    · rw [List.dropWhile_cons_of_neg here] at found
      obtain ⟨rfl, rfl⟩ := List.cons.inj found
      rw [List.dropWhile_cons_of_neg (by simp [stop])]

theorem dropWhile_front {α : Type} {p q : α → Bool} (weaker : ∀ a, p a = true → q a = true)
    {l t : List α} {c : α} (found : l.dropWhile p = c :: t) (stop : q c = false) :
    l.takeWhile q = l.takeWhile p := by
  have whole := List.takeWhile_append_dropWhile (p := p) (l := l)
  have whole' := List.takeWhile_append_dropWhile (p := q) (l := l)
  rw [found] at whole
  rw [dropWhile_stop weaker found stop] at whole'
  exact List.append_cancel_right (whole'.trans whole.symm)

theorem dropWhile_first {α : Type} {p : α → Bool} {l t : List α} {c : α}
    (found : l.dropWhile p = c :: t) : p c = false := by
  have first := List.head?_dropWhile_not p l
  rwa [found] at first

theorem urlPath_slash (url : String) : ∃ t, (urlPath url).toList = '/' :: t := by
  simp only [urlPath]
  split
  · exact ⟨[], rfl⟩
  · next some =>
    obtain ⟨c, t, shape⟩ := List.exists_cons_of_ne_nil some
    obtain rfl : c = '/' := by simpa using dropWhile_first shape
    rw [shape]
    simp [textBefore]

theorem requestPath_slash (url : String) : ∃ t, (requestPath url).toList = '/' :: t := by
  rw [requestPath]
  split
  · exact ⟨_, String.toList_ofList⟩
  · exact ⟨[], rfl⟩

/-- The path that the jar looks at goes on where the path of the request ends. -/
theorem requestPath_begins (url : String) : (requestPath url).toList <+: (urlPath url).toList := by
  obtain ⟨t, slash⟩ := urlPath_slash url
  rw [requestPath]
  split
  · next rest found =>
    have path := dropWhile_stop (q := (· ≠ '/')) (fun a outside => by simp at outside ⊢; exact outside.1)
      found (by simp)
    have same : (urlPath url).toList = '/' :: rest.takeWhile (· ≠ '?') := by
      simp only [urlPath, path]
      simp [textBefore]
    rw [same, String.toList_ofList, List.cons_prefix_cons]
    exact ⟨rfl, takeWhile_prefix_of_imp (fun a outside => by simp at outside ⊢; exact outside.1) rest⟩
  · rw [slash]
    exact ⟨t, rfl⟩

/-- A cookie that is in scope has a path that the jar finds too. -/
theorem PathMatch.begins {cookiePath url : String} (covers : PathMatch cookiePath (requestPath url)) :
    cookiePath.toList <+: (urlPath url).toList := by
  obtain ⟨rest, whole, -⟩ := covers
  exact List.IsPrefix.trans ⟨rest, whole.symm⟩ (requestPath_begins url)

/-- The cookies of the jar that go with a request are those in whose scope it is. -/
def ScopeKept (jar : CookieJar) (url : String) (now : Nat) : Prop :=
  ∀ c ∈ jar.cookies, Selects jar url now c ↔ InScope url now c

/-- A cookie that would go with the request if it were not for the path has no path that ends
inside a segment of the request's, or behind it, and is still the beginning of what `urlPath` takes
from the URL. -/
def SegmentsKept (jar : CookieJar) (url : String) (now : Nat) : Prop :=
  ∀ c ∈ jar.cookies, ∀ host, urlHost url = some host → Addressed url now host c →
    c.path.toList <+: (urlPath url).toList → PathMatch c.path (requestPath url)

theorem scopeKept_iff {jar : CookieJar} (enabled : jar.enabled = true) (url : String) (now : Nat) :
    ScopeKept jar url now ↔ SegmentsKept jar url now := by
  simp only [ScopeKept, SegmentsKept, Selects, InScope, selects_iff, enabled, true_and]
  refine forall₂_congr fun c member => ?_
  constructor
  · intro same host found addressed path
    obtain ⟨host', found', -, covers⟩ := same.mp ⟨host, found, addressed, path⟩
    exact covers
  · intro kept
    constructor
    · rintro ⟨host, found, addressed, path⟩
      exact ⟨host, found, addressed, kept host found addressed path⟩
    · rintro ⟨host, found, addressed, covers⟩
      exact ⟨host, found, addressed, covers.begins⟩

/- Cookies without a path of their own. -/

/-- Whether an attribute names the path of the cookie. -/
def namesPath (text : String) : Bool :=
  let attr := trim text
  if eqIgnoreAsciiCase attr "secure" then false
  else if eqIgnoreAsciiCase attr "httponly" then false
  else
    match splitOnce '=' attr with
    | none => false
    | some (key, _) => eqIgnoreAsciiCase (trim key) "path"

theorem path_attribute {text : String} (other : namesPath text = false) (now : Nat) (c : Cookie) :
    (cookieAttribute now c text).path = c.path := by
  unfold cookieAttribute
  unfold namesPath at other
  dsimp only at other ⊢
  split
  · rfl
  · next insecure =>
    split
    · rfl
    · next open_cookie =>
      rw [if_neg insecure, if_neg open_cookie] at other
      split
      · rfl
      · next key val pair =>
        rw [pair] at other
        dsimp only at other
        split
        · rfl
        · rw [if_neg (by simp [other])]
          split
          · split
            · split <;> rfl
            · rfl
          · split
            · split <;> rfl
            · split <;> rfl

theorem path_attributes {texts : List String} (others : ∀ text ∈ texts, namesPath text = false)
    (now : Nat) (c : Cookie) : (texts.foldl (cookieAttribute now) c).path = c.path := by
  induction texts generalizing c with
  | nil => rfl
  | cons text texts ih =>
    rw [List.foldl_cons, ih fun t member => others t (List.mem_cons_of_mem text member)]
    exact path_attribute (others text List.mem_cons_self) now c

/-- Whether a `Set-Cookie` text names the path. -/
def textNamesPath (raw : String) : Bool := (splitText ';' raw).tail.any namesPath

theorem parseSetCookie_path {raw host path : String} {now : Nat} {c : Cookie}
    (other : textNamesPath raw = false) (read : parseSetCookie raw host path now = some c) :
    c.path = path := by
  rw [parseSetCookie] at read
  rw [textNamesPath, List.any_eq_false] at other
  split at read
  · cases read
  · next nv attrs parts =>
    rw [parts] at other
    obtain ⟨x, pair, rfl⟩ := Option.map_eq_some_iff.mp read
    exact path_attributes (fun text member => by simpa using other text member) now _

/-- The directory of a path, with the slash at its end. -/
def directory (path : String) : List Char := path.toList.rdropWhile (· ≠ '/')

/-- A cookie that a response of some host has set without a path, and that is in the jar. -/
structure StoredWithoutPath (jar : CookieJar) (r : Received) (c : Cookie) : Prop where
  host : urlHost r.url ≠ none
  read : ∃ h ∈ r.headers, eqIgnoreAsciiCase h.1 "set-cookie" = true ∧ textNamesPath h.2 = false ∧
    parseSetCookie h.2 r.host (urlPath r.url) r.now = some c
  kept : c ∈ (jar.store r).cookies

/-- The cookie goes with every request to the host of the response for something in the directory
of the response. -/
def DirectoryCovered (jar : CookieJar) (r : Received) (c : Cookie) : Prop :=
  ∀ url now, c.liveAt now = true → (c.secure = true → hasPrefix url "https://" = true) →
    urlHost url = urlHost r.url → directory (requestPath r.url) <+: (requestPath url).toList →
      Selects (jar.store r) url now c

theorem directory_begins (path : String) : directory path <+: path.toList :=
  List.rdropWhile_prefix _ _

theorem directory_slash {path : String} {t : List Char} (slash : path.toList = '/' :: t) :
    ∃ u, directory path = '/' :: u := by
  have begins := directory_begins path
  have some : directory path ≠ [] := by
    intro none
    have all := List.rdropWhile_eq_nil_iff.mp none '/' (by simp [slash])
    simp at all
  obtain ⟨c, u, shape⟩ := List.exists_cons_of_ne_nil some
  rw [shape, slash] at begins
  obtain ⟨rfl, -⟩ := List.cons_prefix_cons.mp begins
  exact ⟨u, shape⟩

theorem requestPath_plain (url : String) :
    ∀ c ∈ (requestPath url).toList, c ∉ ['?', '#'] := by
  intro c member
  rw [requestPath] at member
  split at member
  · rw [String.toList_ofList, List.mem_cons] at member
    rcases member with rfl | member
    · decide
    · simpa using List.mem_takeWhile_imp member
  · rw [show c = '/' by simpa using member]
    decide

theorem urlRest_https (rest : String) : urlRest ("https://" ++ rest) = some rest := by
  have stripped : stripPrefix ("https://" ++ rest) "https://" = some rest := by
    rw [stripPrefix, String.toList_append, if_pos (List.isPrefixOf_iff_prefix.mpr
      (List.prefix_append _ _)), List.drop_left, String.ofList_toList]
  rw [urlRest, stripped]

/-- The part of a URL that names its host. -/
def hostport (rest : String) : String := textBefore '?' (textBefore '/' rest)

def namedHost (hostport : String) : String :=
  match stripPrefix hostport "[" with
  | some inner => toAsciiLowercase (textBefore ']' inner)
  | none => toAsciiLowercase (textBeforeLast ':' hostport)

theorem urlHost_eq (url : String) :
    urlHost url = (urlRest url).map fun rest => namedHost (hostport rest) := by
  rw [urlHost]
  cases urlRest url with
  | none => simp only [Option.map_none]
  | some rest =>
    cases host : stripPrefix (textBefore '?' (textBefore '/' rest)) "[" <;>
      simp [namedHost, hostport, host]

section
variable {a : String} {d t : List Char} (slash : d = '/' :: t)
include slash

theorem hostport_append (plain : '/' ∉ a.toList ∧ '?' ∉ a.toList) :
    hostport (a ++ String.ofList d) = a := by
  have first : textBefore '/' (a ++ String.ofList d) = a := by
    rw [textBefore, String.toList_append, String.toList_ofList, slash,
      List.takeWhile_append_of_pos (differs_of_outside plain.1)]
    simp
  rw [hostport, first, textBefore_outside plain.2]

theorem urlPath_append (plain : '/' ∉ a.toList) (ends : '?' ∉ d) :
    (urlPath ("https://" ++ (a ++ String.ofList d))).toList = d := by
  have path : (a ++ String.ofList d).toList.dropWhile (· ≠ '/') = d := by
    rw [String.toList_append, String.toList_ofList, slash,
      List.dropWhile_append_of_pos (differs_of_outside plain)]
    simp
  have whole : d.takeWhile (· ≠ '?') = d :=
    List.takeWhile_eq_self_iff.mpr (differs_of_outside ends)
  simp only [urlPath, urlRest_https, Option.getD_some, path]
  rw [if_neg (by simp [slash]), textBefore, String.toList_ofList, String.toList_ofList, whole]

theorem requestPath_append (plain : ∀ c ∈ a.toList, c ∉ ['/', '?', '#'])
    (ends : ∀ c ∈ d, c ∉ ['?', '#']) :
    (requestPath ("https://" ++ (a ++ String.ofList d))).toList = d := by
  have path : (a ++ String.ofList d).toList.dropWhile (· ∉ ['/', '?', '#']) = '/' :: t := by
    rw [String.toList_append, String.toList_ofList, slash, List.dropWhile_append_of_pos]
    · simp
    · exact fun c member => decide_eq_true (plain c member)
  have whole : t.takeWhile (· ∉ ['?', '#']) = t := by
    rw [List.takeWhile_eq_self_iff]
    exact fun c member => decide_eq_true (ends c (slash ▸ List.mem_cons_of_mem _ member))
  rw [requestPath, urlRest_https, Option.getD_some, path]
  simp only [whole, String.toList_ofList, slash]

end

theorem hostport_chars (rest : String) :
    ∀ c ∈ (hostport rest).toList, c ∈ (textBefore '/' rest).toList ∧ c ≠ '/' ∧ c ≠ '?' := by
  intro c member
  rw [hostport, textBefore, String.toList_ofList] at member
  have inside := (List.takeWhile_prefix _).subset member
  refine ⟨inside, ?_, by simpa using List.mem_takeWhile_imp member⟩
  rw [textBefore, String.toList_ofList] at inside
  simpa using List.mem_takeWhile_imp inside

/-- Behind a fragment in front of the first slash no path is read. -/
theorem requestPath_fragment {url rest : String} (behind : urlRest url = some rest)
    (fragment : '#' ∈ (hostport rest).toList) : requestPath url = "/" := by
  have inside := (hostport_chars rest '#' fragment).1
  rw [requestPath]
  split
  · next more stop =>
    rw [behind, Option.getD_some] at stop
    have whole := dropWhile_front (q := (· ≠ '/')) (fun c outside => by
      simp at outside ⊢; exact outside.1) stop (by simp)
    rw [textBefore, String.toList_ofList, whole] at inside
    exact absurd (List.mem_takeWhile_imp inside) (by simp)
  · rfl

/-- Some request to the host of a response is for its directory itself. -/
theorem exists_directory_url {url host : String} (found : urlHost url = some host) :
    ∃ other, hasPrefix other "https://" = true ∧ urlHost other = some host ∧
      directory (requestPath url) <+: (requestPath other).toList ∧
      (urlPath other).toList = directory (requestPath url) := by
  rw [urlHost_eq] at found
  obtain ⟨rest, behind, named⟩ := Option.map_eq_some_iff.mp found
  obtain ⟨t, slash⟩ := requestPath_slash url
  obtain ⟨u, shape⟩ := directory_slash slash
  have chars := hostport_chars rest
  have ends : ∀ c ∈ directory (requestPath url), c ∉ ['?', '#'] := fun c member =>
    requestPath_plain url c ((directory_begins _).subset member)
  have plain : '/' ∉ (hostport rest).toList ∧ '?' ∉ (hostport rest).toList :=
    ⟨fun mark => (chars '/' mark).2.1 rfl, fun mark => (chars '?' mark).2.2 rfl⟩
  refine ⟨"https://" ++ (hostport rest ++ String.ofList (directory (requestPath url))), ?_, ?_, ?_, ?_⟩
  · rw [hasPrefix, String.toList_append]
    exact List.isPrefixOf_iff_prefix.mpr (List.prefix_append _ _)
  · rw [urlHost_eq, urlRest_https, Option.map_some, hostport_append shape plain, named]
  · -- A fragment behind the host leaves only the root.
    by_cases fragment : '#' ∈ (hostport rest).toList
    · obtain ⟨u', slash'⟩ := requestPath_slash
        ("https://" ++ (hostport rest ++ String.ofList (directory (requestPath url))))
      rw [slash', requestPath_fragment behind fragment, show directory "/" = ['/'] by decide]
      simp
    · have clear : ∀ c ∈ (hostport rest).toList, c ∉ ['/', '?', '#'] := by
        intro c member
        have other : c ≠ '#' := fun same => fragment (same ▸ member)
        simp [(chars c member).2, other]
      rw [requestPath_append shape clear ends]
  · exact urlPath_append shape plain.1 fun mark => ends '?' mark (by simp)

theorem directoryCovered_iff {jar : CookieJar} (enabled : jar.enabled = true) {r : Received}
    {c : Cookie} (stored : StoredWithoutPath jar r c) :
    DirectoryCovered jar r c ↔
      DomainMatch c.domain r.host ∧ (urlPath r.url).toList = directory (requestPath r.url) := by
  obtain ⟨host, named⟩ := Option.ne_none_iff_exists'.mp stored.host
  have own : r.host = host := by rw [Received.host, named, Option.getD_some]
  have path : c.path = urlPath r.url := by
    obtain ⟨h, -, -, other, read⟩ := stored.read
    exact parseSetCookie_path other read
  have live : c.liveAt r.now = true := ((mem_store enabled c).mp stored.kept).1
  have on : (jar.store r).enabled = true := (store_enabled enabled).1
  have front : directory (requestPath r.url) <+: (urlPath r.url).toList :=
    (directory_begins _).trans (requestPath_begins _)
  constructor
  · intro covered
    obtain ⟨url, secure, same, inside, whole⟩ := exists_directory_url named
    obtain ⟨-, host', named', chosen⟩ :=
      covered url r.now live (fun _ => secure) (same.trans named.symm) inside
    obtain rfl : host' = host := Option.some.inj (named'.symm.trans same)
    obtain ⟨addressed, begins⟩ := (selects_iff url r.now host' c).mp chosen
    refine ⟨own ▸ addressed.domain, ?_⟩
    rw [path, whole] at begins
    exact begins.eq_of_length_le front.length_le
  · rintro ⟨domain, ends⟩ url now live secure same inside
    refine ⟨on, host, same.trans named, (selects_iff url now host c).mpr ⟨?_, ?_⟩⟩
    · exact ⟨(liveAt_iff now c).mp live, secure, own ▸ domain⟩
    · rw [path, ends]
      exact inside.trans (requestPath_begins url)

/-- After any responses, a cookie goes with exactly the requests in its scope if none that is
addressed to the request has a path that ends inside a segment; and one that was stored without a
path goes with all of the directory exactly if the path of the response is the directory. -/
theorem cookie_scope_iff (rs : List Received) :
    (∀ url now, ScopeKept (empty.storeAll rs) url now ↔ SegmentsKept (empty.storeAll rs) url now) ∧
      ∀ r c, StoredWithoutPath (empty.storeAll rs) r c →
        (DirectoryCovered (empty.storeAll rs) r c ↔
          DomainMatch c.domain r.host ∧
            (urlPath r.url).toList = directory (requestPath r.url)) := by
  have enabled : (empty.storeAll rs).enabled = true := by
    induction rs using List.reverseRecOn with
    | nil => rfl
    | append_singleton rs r ih =>
      rw [storeAll, List.foldl_append]
      exact (store_enabled ih).1
  exact ⟨scopeKept_iff enabled, fun r c stored => directoryCovered_iff enabled stored⟩

/-- A cookie of a directory. -/
def directoryReply : Received := ⟨"http://example.com/a/", [("Set-Cookie", "sid=1; Path=/a")], 5⟩

theorem cookie_scope_directory :
    ScopeKept (empty.storeAll [directoryReply]) "http://example.com/a/b" 6 := by
  refine ((cookie_scope_iff [directoryReply]).1 _ _).mpr fun c member host _ _ _ => ?_
  have only : (empty.storeAll [directoryReply]).cookies =
      [{ name := "sid", value := "1", domain := "example.com", path := "/a" }] := by decide +kernel
  rw [only, List.mem_singleton] at member
  subst member
  exact ⟨['/', 'b'], by decide +kernel, .inr (.inr rfl)⟩

/-- The cookie goes with a path that only begins like its own. -/
theorem cookie_scope_segment : ¬ ∀ (rs : List Received) (url : String) (now : Nat),
    ScopeKept (empty.storeAll rs) url now := by
  intro all
  have kept := all [directoryReply] "http://example.com/ab" 6
  have only : (empty.storeAll [directoryReply]).cookies =
      [{ name := "sid", value := "1", domain := "example.com", path := "/a" }] := by decide +kernel
  have member : ({ name := "sid", value := "1", domain := "example.com", path := "/a" } : Cookie) ∈
      (empty.storeAll [directoryReply]).cookies := by
    rw [only]
    exact List.mem_singleton_self _
  have selected : Selects (empty.storeAll [directoryReply]) "http://example.com/ab" 6
      { name := "sid", value := "1", domain := "example.com", path := "/a" } :=
    ⟨rfl, "example.com", by decide +kernel, by decide +kernel⟩
  obtain ⟨host, -, -, rest, whole, ends⟩ := (kept _ member).mp selected
  have tail : rest = ['b'] := by
    have path : (requestPath "http://example.com/ab").toList = ['/', 'a', 'b'] := by decide +kernel
    rw [path] at whole
    simpa [eq_comm] using whole
  subst tail
  revert ends
  decide

end BitBeak.Http
