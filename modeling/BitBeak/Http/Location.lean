import BitBeak.Http.HeaderOverride
import BitBeak.Lib.UriReference

/-! Where a redirect leads: `resolve_location` against the resolution of references. -/
namespace BitBeak.Http
open UriReference

def AbsoluteUrl (url : String) : Prop :=
  ∃ scheme, (parse url.toList).scheme = some scheme ∧
    scheme.map Char.toLower ∈ ["http".toList, "https".toList] ∧
    (parse url.toList).authority ≠ none

/-- The parser of the `http` crate gives the scheme of a URL in lower case, and its authority as it
is written. -/
def HttpCrates.ReadsParts (crates : HttpCrates) : Prop :=
  ∀ url uri, AbsoluteUrl url → crates.uri url = some uri →
    uri.scheme = (parse url.toList).scheme.map (fun s => String.ofList (s.map Char.toLower)) ∧
    uri.authority = (parse url.toList).authority.map String.ofList

def lowerScheme (r : Reference) : Reference :=
  { r with scheme := r.scheme.map (·.map Char.toLower) }

/-- The reference resolved against the base, with the scheme in lower case. -/
def target (base loc : String) : String :=
  String.ofList (recompose (lowerScheme (resolve (parse base.toList) (parse loc.toList))))

def absoluteHttp (loc : String) : Prop := hasPrefix loc "http://" ∨ hasPrefix loc "https://"

instance (loc : String) : Decidable (absoluteHttp loc) :=
  inferInstanceAs (Decidable (hasPrefix loc "http://" ∨ hasPrefix loc "https://"))

/-- The references that lead where the text alone, or the text behind the root of the base, does. -/
def Located (base loc : String) : Prop :=
  let b := parse base.toList
  let r := parse loc.toList
  if absoluteHttp loc then DotFree r.path
  else r.scheme = none ∧ r.authority = none ∧
    if r.path = [] then b.path = ['/'] ∧ (r.query = none → b.query = none)
    else DotFree r.path ∧ (r.path.head? = some '/' ∨ removeDots [] (baseDirectory b) = ['/'])

theorem hasPrefix_iff (text start : String) :
    hasPrefix text start = true ↔ ∃ rest, text.toList = start.toList ++ rest := by
  rw [hasPrefix, List.isPrefixOf_iff_prefix]
  exact ⟨fun ⟨rest, whole⟩ => ⟨rest, whole.symm⟩, fun ⟨rest, whole⟩ => ⟨rest, whole.symm⟩⟩

theorem absoluteHttp_parts {loc : String} (absolute : absoluteHttp loc) :
    (parse loc.toList).authority ≠ none ∧
      ∃ scheme, (parse loc.toList).scheme = some scheme ∧ scheme.map Char.toLower = scheme := by
  rcases absolute with http | https
  · obtain ⟨rest, whole⟩ := (hasPrefix_iff ..).mp http
    have front := parse_front (s := "http".toList) (by simp) (by simp) rest
    rw [show loc.toList = "http".toList ++ [':', '/', '/'] ++ rest from whole]
    exact ⟨front.2, _, front.1, by simp⟩
  · obtain ⟨rest, whole⟩ := (hasPrefix_iff ..).mp https
    have front := parse_front (s := "https".toList) (by simp) (by simp) rest
    rw [show loc.toList = "https".toList ++ [':', '/', '/'] ++ rest from whole]
    exact ⟨front.2, _, front.1, by simp⟩

/- The text of the parts behind the authority. -/

def behindAuthority (path : Text) (query fragment : Option Text) : Text :=
  path ++ (query.elim [] ('?' :: ·) ++ fragment.elim [] ('#' :: ·))

theorem behindAuthority_inj {p p' : Text} (query fragment : Option Text) :
    behindAuthority p query fragment = behindAuthority p' query fragment ↔ p = p' := by
  simp [behindAuthority]

theorem recompose_split (r : Reference) :
    recompose r = r.scheme.elim [] (· ++ [':']) ++ ((r.authority.elim [] fun a => '/' :: '/' :: a) ++
      behindAuthority r.path r.query r.fragment) := rfl

theorem length_recompose (r : Reference) :
    (recompose r).length = (r.scheme.elim [] (· ++ [':'])).length +
      (r.authority.elim [] fun a => '/' :: '/' :: a).length + r.path.length +
      (r.query.elim [] ('?' :: ·)).length + (r.fragment.elim [] ('#' :: ·)).length := by
  simp only [recompose, List.length_append]
  omega

section
variable {crates : HttpCrates} {base loc : String} {scheme authority : Text}

/-- What `resolve_location` makes of a base with these parts. -/
theorem resolveLocation_parts (contract : crates.ReadsParts) (absolute : AbsoluteUrl base)
    (accepted : crates.uri base ≠ none) (relative : ¬ absoluteHttp loc)
    (readScheme : (parse base.toList).scheme = some scheme)
    (readAuthority : (parse base.toList).authority = some authority) :
    (resolveLocation crates base loc).toList =
      scheme.map Char.toLower ++ ':' :: '/' :: '/' :: (authority ++
        if loc.toList.head? = some '/' then loc.toList else '/' :: loc.toList) := by
  obtain ⟨uri, read⟩ := Option.ne_none_iff_exists'.mp accepted
  obtain ⟨first, second⟩ := contract base uri absolute read
  have slash : hasPrefix loc "/" = true ↔ loc.toList.head? = some '/' := by
    rw [hasPrefix_iff]
    cases loc.toList <;> simp
  rw [absoluteHttp] at relative
  rw [readScheme] at first
  rw [readAuthority] at second
  simp only [resolveLocation, if_neg relative, read, first, second, slash]
  split <;> simp [String.toList_append]

/-- The target of a reference without scheme and authority has those of the base. -/
theorem target_parts {path : Text} {query : Option Text}
    (readScheme : (parse base.toList).scheme = some scheme)
    (readAuthority : (parse base.toList).authority = some authority)
    (resolved : resolve (parse base.toList) (parse loc.toList) =
      { parse base.toList with
        path := path, query := query, fragment := (parse loc.toList).fragment }) :
    (target base loc).toList = scheme.map Char.toLower ++ ':' :: '/' :: '/' :: (authority ++
      behindAuthority path query (parse loc.toList).fragment) := by
  simp [target, resolved, recompose_split, lowerScheme, readScheme, readAuthority]

/-- A text that is a URL by itself stays as it is. -/
theorem resolve_absolute (absolute : absoluteHttp loc) :
    resolveLocation crates base loc = target base loc ↔ DotFree (parse loc.toList).path := by
  obtain ⟨some, scheme, read, lower⟩ := absoluteHttp_parts absolute
  have whole := recompose_parse loc.toList
  have resolved : lowerScheme (resolve (parse base.toList) (parse loc.toList)) =
      { parse loc.toList with path := removeDots [] (parse loc.toList).path } := by
    simp [resolve, lowerScheme, read, lower]
  rw [← removeDots_path (parse_authority some), resolveLocation,
    if_pos (show hasPrefix loc "http://" ∨ hasPrefix loc "https://" from absolute),
    ← String.toList_inj, target, resolved, String.toList_ofList]
  conv_lhs => lhs; rw [← whole]
  rw [recompose_split, recompose_split, List.append_cancel_left_eq, List.append_cancel_left_eq,
    behindAuthority_inj, eq_comm]

/-- Another scheme, or another authority, is put behind the one of the base. -/
theorem resolve_foreign (contract : crates.ReadsParts) (absolute : AbsoluteUrl base)
    (accepted : crates.uri base ≠ none) (relative : ¬ absoluteHttp loc)
    (foreign : (parse loc.toList).scheme ≠ none ∨ (parse loc.toList).authority ≠ none) :
    resolveLocation crates base loc ≠ target base loc := by
  obtain ⟨scheme, readScheme, -, some⟩ := id absolute
  obtain ⟨authority, readAuthority⟩ := Option.ne_none_iff_exists'.mp some
  have text := resolveLocation_parts contract absolute accepted relative readScheme readAuthority
  have longer : scheme.length + 3 + loc.toList.length ≤
      (resolveLocation crates base loc).toList.length := by
    rw [text]
    split <;> simp <;> omega
  have whole := length_recompose (parse loc.toList)
  have path := length_removeDots [] (parse loc.toList).path
  rw [recompose_parse] at whole
  rw [List.length_nil, Nat.zero_add] at path
  have shorter : (target base loc).toList.length ≤ scheme.length + 1 + loc.toList.length := by
    rw [target, String.toList_ofList, length_recompose]
    by_cases none : (parse loc.toList).scheme = none
    · obtain ⟨own, found⟩ :=
        Option.ne_none_iff_exists'.mp (foreign.resolve_left fun differ => differ none)
      simp only [resolve, none, found, lowerScheme, readScheme] at whole ⊢
      simp at whole ⊢
      omega
    · obtain ⟨own, found⟩ := Option.ne_none_iff_exists'.mp none
      simp only [resolve, found, lowerScheme] at whole ⊢
      simp at whole ⊢
      omega
  intro same
  rw [same] at longer
  omega

theorem relative_text (noScheme : (parse loc.toList).scheme = none)
    (noAuthority : (parse loc.toList).authority = none) :
    loc.toList = behindAuthority (parse loc.toList).path (parse loc.toList).query
      (parse loc.toList).fragment := by
  have whole := recompose_parse loc.toList
  rw [recompose_split, noScheme, noAuthority] at whole
  exact whole.symm

theorem behindAuthority_head (path : Text) (query fragment : Option Text) :
    (behindAuthority path query fragment).head? = some '/' ↔ path.head? = some '/' := by
  cases path with
  | nil => cases query <;> cases fragment <;> simp [behindAuthority]
  | cons c path => simp [behindAuthority]

/-- Without a path the one of the base is kept, and its query if there is no other. -/
theorem root_query_iff (path : Text) (query query' fragment : Option Text)
    (shape : path = [] ∨ ∃ t, path = '/' :: t) :
    '/' :: behindAuthority [] query fragment = behindAuthority path (query.or query') fragment ↔
      path = ['/'] ∧ (query = none → query' = none) := by
  have cut : ∀ q : Option Text, behindAuthority path q fragment =
      (path ++ q.elim [] ('?' :: ·)) ++ fragment.elim [] ('#' :: ·) := by simp [behindAuthority]
  have own : '/' :: behindAuthority [] query fragment =
      (['/'] ++ query.elim [] ('?' :: ·)) ++ fragment.elim [] ('#' :: ·) := by simp [behindAuthority]
  rw [own, cut, List.append_cancel_right_eq]
  rcases shape with rfl | ⟨t, rfl⟩
  · cases query <;> cases query' <;> simp
  · cases query <;> cases query' <;> simp [eq_comm]

/-- The path that `resolve_location` puts behind the authority of the base. -/
def rootPath (path : Text) : Text := if path.head? = some '/' then path else '/' :: path

/-- With the parts in front the same, the ones behind the authority decide. -/
theorem resolve_relative (contract : crates.ReadsParts) (absolute : AbsoluteUrl base)
    (accepted : crates.uri base ≠ none) (relative : ¬ absoluteHttp loc)
    (noScheme : (parse loc.toList).scheme = none) (noAuthority : (parse loc.toList).authority = none)
    (path : Text) (query : Option Text)
    (resolved : resolve (parse base.toList) (parse loc.toList) =
      { parse base.toList with
        path := path, query := query, fragment := (parse loc.toList).fragment }) :
    resolveLocation crates base loc = target base loc ↔
      behindAuthority (rootPath (parse loc.toList).path) (parse loc.toList).query
          (parse loc.toList).fragment =
        behindAuthority path query (parse loc.toList).fragment := by
  obtain ⟨scheme, readScheme, -, some⟩ := id absolute
  obtain ⟨authority, readAuthority⟩ := Option.ne_none_iff_exists'.mp some
  have text := relative_text noScheme noAuthority
  have slash : loc.toList.head? = Option.some '/' ↔
      (parse loc.toList).path.head? = Option.some '/' := by
    conv_lhs => rw [text]
    exact behindAuthority_head ..
  have rooted : (if loc.toList.head? = Option.some '/' then loc.toList else '/' :: loc.toList) =
      behindAuthority (rootPath (parse loc.toList).path) (parse loc.toList).query
        (parse loc.toList).fragment := by
    simp only [slash, rootPath]
    split
    · exact text
    · exact congrArg ('/' :: ·) text
  rw [← String.toList_inj, target_parts readScheme readAuthority resolved,
    resolveLocation_parts contract absolute accepted relative readScheme readAuthority, rooted]
  simp

/-- `resolve_location` gives the resolved reference exactly for the references that lead behind the
root of the base. -/
theorem resolveLocation_iff (contract : crates.ReadsParts) (absolute : AbsoluteUrl base)
    (accepted : crates.uri base ≠ none) :
    resolveLocation crates base loc = target base loc ↔ Located base loc := by
  by_cases http : absoluteHttp loc
  · rw [resolve_absolute http, Located, if_pos http]
  by_cases foreign : (parse loc.toList).scheme ≠ none ∨ (parse loc.toList).authority ≠ none
  · have differ := resolve_foreign contract absolute accepted http foreign
    simp only [Located, if_neg http, differ, false_iff]
    rintro ⟨noScheme, noAuthority, -⟩
    exact foreign.elim (fun differ => differ noScheme) fun differ => differ noAuthority
  simp only [not_or, not_not] at foreign
  obtain ⟨noScheme, noAuthority⟩ := foreign
  have relative := resolve_relative contract absolute accepted http noScheme noAuthority
  obtain ⟨scheme, -, -, some⟩ := id absolute
  have shape := parse_authority some
  simp only [Located, if_neg http, noScheme, noAuthority, true_and]
  by_cases empty : (parse loc.toList).path = []
  · rw [relative (parse base.toList).path ((parse loc.toList).query.or (parse base.toList).query)
      (by simp [resolve, noScheme, noAuthority, empty]), if_pos empty, empty]
    exact root_query_iff _ _ _ _ shape
  · rw [if_neg empty]
    by_cases rooted : (parse loc.toList).path.head? = Option.some '/'
    · have own : ∃ t, (parse loc.toList).path = '/' :: t :=
        List.head?_eq_some_iff.mp rooted
      rw [relative (removeDots [] (parse loc.toList).path) (parse loc.toList).query
        (by simp [resolve, noScheme, noAuthority, empty, rooted]), behindAuthority_inj, rootPath,
        if_pos rooted, eq_comm, removeDots_path (.inr own)]
      simp [rooted]
    · obtain ⟨front, plain, above⟩ := baseDirectory_rooted some shape
      rw [relative (removeDots [] (baseDirectory (parse base.toList) ++ (parse loc.toList).path))
        (parse loc.toList).query (by simp [resolve, noScheme, noAuthority, empty, rooted]),
        behindAuthority_inj, rootPath, if_neg rooted, eq_comm, above, List.append_assoc,
        List.singleton_append, removeDots_append_iff plain]
      simp [rooted, and_comm]

end

/- A parser of absolute URLs. -/

def partsCrates : HttpCrates :=
  { headerCrates with
    uri := fun url =>
      match (parse url.toList).scheme, (parse url.toList).authority with
      | some scheme, some authority => some {
          scheme := some (String.ofList (scheme.map Char.toLower))
          authority := some (String.ofList authority)
          host := some (String.ofList (authority.takeWhile (· ≠ ':'))) }
      | _, _ => none }

theorem partsCrates_reads : partsCrates.ReadsParts := by
  rintro url uri ⟨scheme, readScheme, -, some⟩ read
  obtain ⟨authority, readAuthority⟩ := Option.ne_none_iff_exists'.mp some
  simp only [partsCrates, readScheme, readAuthority, Option.some.injEq] at read
  subst read
  simp [readScheme, readAuthority]

theorem resolveLocation_file :
    resolveLocation partsCrates "http://h:8080/a?p=1" "b/c?q" =
      target "http://h:8080/a?p=1" "b/c?q" := by
  refine (resolveLocation_iff partsCrates_reads ⟨"http".toList, by decide, by decide, by decide⟩
    (by decide)).mpr ?_
  have root : baseDirectory (parse "http://h:8080/a?p=1".toList) = ['/'] := by decide
  rw [Located, if_neg (by decide), if_neg (by decide), root, removeDots_slash]
  decide

/-- A reference with another authority is taken for a path. -/
theorem resolveLocation_authority : ¬ ∀ (crates : HttpCrates) (base loc : String),
    crates.ReadsParts → AbsoluteUrl base → crates.uri base ≠ none →
      resolveLocation crates base loc = target base loc := by
  intro all
  have same := all partsCrates "http://h/a" "//other/" partsCrates_reads
    ⟨"http".toList, by decide, by decide, by decide⟩ (by decide)
  have resolved : resolve (parse "http://h/a".toList) (parse "//other/".toList) =
      { scheme := some "http".toList, authority := some "other".toList, path := ['/'],
        query := none, fragment := none } := by
    simp [resolve, parse, cutAt, cutScheme, cutAuthority, removeDots_slash]
  rw [target, resolved] at same
  revert same
  decide

end BitBeak.Http
