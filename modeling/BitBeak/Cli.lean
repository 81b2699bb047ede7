import BitBeak.Capture.EndpointText
import BitBeak.Http.Words
import BitBeak.Lib.Occurrence

/-! The targets that the command line and the dialogs name by a URI. A target is shown as a URI
again; a host that was read out of brackets is shown without them. -/
namespace BitBeak.Cli
open Occurrence BoolText

inductive Target where
  | tcp (host : String) (port : UInt16)
  | udp (host : String) (port : UInt16)
  | unix (path : String)
  | ws (url : String) (secure : Bool)
  | tls (host : String) (port : UInt16)
  | http (url : String) (secure : Bool)
  deriving DecidableEq, Repr

/-- A host and its port, as they are shown behind a scheme. -/
def joinedHost (host : String) (port : UInt16) : String := host ++ ":" ++ toString port.toNat

def Target.display : Target → String
  | .tcp host port => "tcp://" ++ joinedHost host port
  | .udp host port => "udp://" ++ joinedHost host port
  | .unix path => "unix://" ++ path
  | .ws url _ => url
  | .tls host port => "tls://" ++ joinedHost host port
  | .http url _ => url

/-- `join_host_port`, which puts the host of an IPv6 address in brackets. -/
def joinHostPort (host : String) (port : UInt16) : String :=
  if ':' ∈ host.toList ∧ ¬ hasPrefix host "[" then joinedHost ("[" ++ host ++ "]") port
  else joinedHost host port

inductive TargetParseError where
  | empty
  | missingScheme (text : String)
  | unsupportedScheme (scheme : String)
  | invalidHostPort (text : String)
  | missingUnixPath
  | invalidPort (text : String)
  deriving DecidableEq, Repr

def TargetParseError.text : TargetParseError → String
  | .empty => "empty target URI"
  | .missingScheme text => "missing scheme in URI: " ++ text
  | .unsupportedScheme scheme => "unsupported scheme: " ++ scheme
  | .invalidHostPort text => "invalid host/port in URI: " ++ text
  | .missingUnixPath => "unix URI requires a path"
  | .invalidPort text => "invalid port: " ++ text

/-- The texts in front of and behind the first `mark`. -/
def splitOnceAt (mark text : String) : Option (String × String) :=
  (cut mark.toList text.toList).map fun x => (String.ofList x.1, String.ofList x.2)

def targetPort (text : String) : Except TargetParseError UInt16 :=
  match parseU16 text with
  | some port => .ok (UInt16.ofNat port)
  | none => .error (.invalidPort text)

def splitHostPort (rest : String) : Except TargetParseError (String × UInt16) :=
  -- A path behind the port is not looked at.
  let authority := textBefore '/' rest
  if authority = "" then .error (.invalidHostPort rest)
  else
    match stripPrefix authority "[" with
    | some inner =>
      match splitOnceAt "]:" inner with
      | none => .error (.invalidHostPort authority)
      | some (host, portPart) => do return (host, ← targetPort portPart)
    | none =>
      match rsplitOnce ':' authority with
      | none => .error (.invalidHostPort authority)
      | some (host, portStr) =>
        if host = "" then .error (.invalidHostPort authority)
        else do return (host, ← targetPort portStr)

/-- A path without a component behind the root. -/
def isRootPath (path : String) : Bool :=
  hasPrefix path "/" && (splitText '/' path).all fun piece => piece == "" || piece == "."

def unixPath (path : String) : Except TargetParseError Target :=
  if path = "" ∨ isRootPath path then .error .missingUnixPath else .ok (.unix path)

def unixTarget (rest : String) : Except TargetParseError Target :=
  let path := trimStart '/' rest
  if hasPrefix rest "/" then unixPath rest
  else if path = "" then .error .missingUnixPath
  else unixPath ("/" ++ path)

/-- The target of the text `s`, which is `scheme`, a mark and `rest`. -/
def schemeTarget (s scheme rest : String) : Except TargetParseError Target :=
  match toAsciiLowercase scheme with
  | "tcp" => do let (host, port) ← splitHostPort rest; return .tcp host port
  | "udp" => do let (host, port) ← splitHostPort rest; return .udp host port
  | "tls" => do let (host, port) ← splitHostPort rest; return .tls host port
  | "unix" => unixTarget rest
  | "ws" => .ok (.ws s false)
  | "wss" => .ok (.ws s true)
  | "http" => .ok (.http s false)
  | "https" => .ok (.http s true)
  | other => .error (.unsupportedScheme other)

def parseTarget (input : String) : Except TargetParseError Target :=
  let s := trim input
  if s = "" then .error .empty
  else
    match splitOnceAt "://" s with
    | none => .error (.missingScheme s)
    | some (scheme, rest) => schemeTarget s scheme rest



/- A URI that is shown is split at its own scheme. -/

theorem splitOnceAt_scheme {scheme : String} (plain : ':' ∉ scheme.toList) (rest : String) :
    splitOnceAt "://" (scheme ++ "://" ++ rest) = some (scheme, rest) := by
  have first : Occurrence.cut [':', '/', '/'] (scheme.toList ++ ("://".toList ++ rest.toList)) =
      (Occurrence.cut [':', '/', '/'] ("://".toList ++ rest.toList)).map fun x =>
        (scheme.toList ++ x.1, x.2) := cut_outside plain _
  rw [show "://".toList = ':' :: ['/', '/'] from rfl, cut_self (List.cons_ne_nil _ _)] at first
  simp only [splitOnceAt, String.toList_append, List.append_assoc,
    show "://".toList = ':' :: ['/', '/'] from rfl, first]
  simp

theorem parseTarget_split {input scheme rest : String} (nonempty : trim input ≠ "")
    (found : splitOnceAt "://" (trim input) = some (scheme, rest)) :
    parseTarget input = schemeTarget (trim input) scheme rest := by
  simp only [parseTarget, if_neg nonempty, found]

theorem splitOnceAt_eq_some {mark text a b : String} (found : splitOnceAt mark text = some (a, b)) :
    text = a ++ mark ++ b := by
  obtain ⟨x, cutting, parts⟩ := Option.map_eq_some_iff.mp found
  obtain ⟨rfl, rfl⟩ := Prod.mk.inj parts
  rw [← String.toList_inj, eq_of_cut cutting]
  simp

/-- A text behind a scheme, without white space at its end. -/
theorem parseTarget_scheme {scheme : String} {first : Char}
    (begins : scheme.toList.head? = some first) (visible : isWhitespace first = false)
    (plain : ':' ∉ scheme.toList) {rest : String}
    (ends : ∃ c ∈ rest.toList.getLast?, isWhitespace c = false) :
    parseTarget (scheme ++ "://" ++ rest) =
      schemeTarget (scheme ++ "://" ++ rest) scheme rest := by
  obtain ⟨last, member, seen⟩ := ends
  have tight : Tight isWhitespace (scheme ++ "://" ++ rest).toList := by
    constructor
    · refine ⟨first, ?_, visible⟩
      simp [List.head?_append, begins]
    · refine ⟨last, ?_, seen⟩
      rw [String.toList_append, List.getLast?_append, member]
      rfl
  have trimmed := trim_tight tight
  have nonempty : scheme ++ "://" ++ rest ≠ "" := by
    intro none
    have head := tight.first
    rw [none] at head
    simp at head
  rw [parseTarget_split (by rwa [trimmed]) (by rw [trimmed, splitOnceAt_scheme plain]), trimmed]

/- Hosts. -/

/-- A host that is found again in front of its port: it is not empty and begins with no bracket. -/
def PlainHost (host : String) : Prop := host ≠ "" ∧ host.toList.head? ≠ some '['

section
variable {host : String} {port : UInt16}

theorem targetPort_toString (port : UInt16) : targetPort (toString port.toNat) = .ok port := by
  rw [targetPort, parseU16_toString port.toNat_lt]
  simp

theorem digits_other {c : Char} (other : c.isDigit = false) (n : Nat) :
    c ∉ (toString n).toList := by
  rw [toList_toString]
  exact digits_outside other

theorem joinedHost_toList (host : String) (port : UInt16) :
    (joinedHost host port).toList = host.toList ++ ':' :: (toString port.toNat).toList := by
  simp [joinedHost]

theorem textBefore_joined (inside : '/' ∉ host.toList) :
    textBefore '/' (joinedHost host port) = joinedHost host port := by
  apply textBefore_outside
  intro member
  rw [joinedHost_toList, List.mem_append, List.mem_cons] at member
  rcases member with front | mark | digit
  · exact inside front
  · cases mark
  · exact digits_other (by decide) _ digit

theorem joinedHost_nonempty : joinedHost host port ≠ "" := by
  intro none
  have empty := congrArg String.toList none
  simp [joinedHost_toList] at empty

theorem splitHostPort_plain (plain : PlainHost host) (inside : '/' ∉ host.toList) :
    splitHostPort (joinedHost host port) = .ok (host, port) := by
  have nonempty : host.toList ≠ [] := fun none => plain.1 (String.toList_eq_nil_iff.mp none)
  have bare : stripPrefix (joinedHost host port) "[" = none := by
    apply stripPrefix_bracket
    rw [joinedHost_toList, List.head?_append_of_ne_nil _ nonempty]
    exact plain.2
  have found : rsplitOnce ':' (joinedHost host port) = some (host, toString port.toNat) :=
    rsplitOnce_append host (digits_other (by decide) _)
  simp only [splitHostPort, textBefore_joined inside, if_neg joinedHost_nonempty, bare, found,
    if_neg plain.1, targetPort_toString]
  rfl

/-- Without a host nothing is read. -/
theorem splitHostPort_empty (port : UInt16) :
    splitHostPort (joinedHost "" port) = .error (.invalidHostPort (joinedHost "" port)) := by
  have bare : stripPrefix (joinedHost "" port) "[" = none := by
    apply stripPrefix_bracket
    simp [joinedHost_toList]
  have found : rsplitOnce ':' (joinedHost "" port) = some ("", toString port.toNat) :=
    rsplitOnce_append "" (digits_other (by decide) _)
  have whole : textBefore '/' (joinedHost "" port) = joinedHost "" port :=
    textBefore_joined List.not_mem_nil
  simp only [splitHostPort, whole, if_neg joinedHost_nonempty, bare, found, if_true]

/-- A bracket in front of a host is taken for that of an address. -/
theorem splitHostPort_bracket (opens : host.toList.head? = some '[')
    (inside : '/' ∉ host.toList) :
    splitHostPort (joinedHost host port) ≠ .ok (host, port) := by
  intro read
  obtain ⟨inner, whole⟩ : ∃ inner, host = "[" ++ inner := by
    cases shape : host.toList with
    | nil => simp [shape] at opens
    | cons c rest =>
      rw [shape] at opens
      cases opens
      exact ⟨String.ofList rest, by rw [← String.toList_inj, shape]; simp⟩
  have stripped : stripPrefix (joinedHost host port) "[" = some (joinedHost inner port) := by
    rw [show joinedHost host port = "[" ++ joinedHost inner port by
      simp [joinedHost, whole, String.append_assoc]]
    exact stripPrefix_append _ _
  simp only [splitHostPort, textBefore_joined inside, if_neg joinedHost_nonempty, stripped] at read
  cases cutting : splitOnceAt "]:" (joinedHost inner port) with
  | none => simp [cutting] at read
  | some parts =>
    obtain ⟨a, b⟩ := parts
    simp only [cutting] at read
    obtain ⟨port', _, same⟩ : ∃ p, targetPort b = .ok p ∧ (a, p) = (host, port) := by
      cases number : targetPort b with
      | error e =>
        rw [number] at read
        cases read
      | ok p =>
        rw [number] at read
        exact ⟨p, rfl, Except.ok.inj read⟩
    obtain ⟨rfl, rfl⟩ := Prod.mk.inj same
    -- There is one closing bracket more in what was split than in what it was made from.
    obtain ⟨x, found, parts⟩ := Option.map_eq_some_iff.mp cutting
    have split := eq_of_cut found
    rw [← String.toList_ofList (l := x.1), (Prod.mk.inj parts).1, whole,
      joinedHost_toList] at split
    have counted := congrArg (List.count ']') split
    have none : (Nat.toDigits 10 port'.toNat).count ']' = 0 :=
      List.count_eq_zero.mpr (digits_outside (by decide))
    simp [none] at counted

/-- Host and port are those of the text. -/
theorem port_read {a b : String}
    (read : (do return (a, ← targetPort b) : Except TargetParseError (String × UInt16)) =
      .ok (host, port)) : a = host := by
  cases number : targetPort b with
  | error e =>
    rw [number] at read
    cases read
  | ok p =>
    rw [number] at read
    cases read
    rfl

theorem bracketed_host {rest inner b : String} {path : List Char}
    (whole : rest.toList = ("[" ++ inner).toList ++ path) (outside : '/' ∉ ("[" ++ inner).toList)
    (cutting : splitOnceAt "]:" inner = some (host, b)) :
    '/' ∉ host.toList ∧
      (PlainHost host ↔ hasPrefix rest "[]:" = false ∧ hasPrefix rest "[[" = false) := by
  obtain ⟨x, found, parts⟩ := Option.map_eq_some_iff.mp cutting
  have split := eq_of_cut found
  have front : x.1 = host.toList := by
    rw [← (Prod.mk.inj parts).1, String.toList_ofList]
  rw [front] at split
  rw [String.toList_append, split] at whole outside
  constructor
  · intro member
    exact outside (by simp [member])
  · cases shape : host.toList with
    | nil =>
      rw [shape] at whole
      simp [PlainHost, String.toList_eq_nil_iff.mp shape, hasPrefix, whole]
    | cons c more =>
      have nonempty : host ≠ "" := by
        rintro rfl
        cases shape
      rw [shape] at whole
      have no_mark : ¬ (c = ']' ∧ (more ++ ']' :: ':' :: (x.2 ++ path)).head? = some ':') := by
        rintro ⟨rfl, second⟩
        cases more with
        | nil => cases second
        | cons d more =>
          cases second
          -- The first mark would be in front.
          have front : Occurrence.cut "]:".toList ("]:".toList ++ (more ++ ("]:".toList ++ x.2))) =
              some ([], more ++ ("]:".toList ++ x.2)) := cut_self (List.cons_ne_nil _ _) _
          rw [split, shape] at found
          have same := congrArg Prod.fst (Option.some.inj (front.symm.trans found))
          rw [‹x.1 = _›, shape] at same
          cases same
      cases more with
      | nil =>
        simp [PlainHost, nonempty, shape, hasPrefix, whole, List.isPrefixOf, eq_comm (a := c)]
      | cons d more =>
        have apart : ']' = c → ¬ ':' = d := by
          rintro rfl rfl
          exact no_mark ⟨rfl, rfl⟩
        simp [PlainHost, nonempty, shape, hasPrefix, whole, List.isPrefixOf, eq_comm (a := c)]
        exact fun _ => apart

theorem bare_host {rest authority b : String} {path : List Char}
    (whole : rest.toList = authority.toList ++ path) (outside : '/' ∉ authority.toList)
    (bare : stripPrefix authority "[" = none) (parts : authority = host ++ ":" ++ b)
    (nonempty : host ≠ "") :
    '/' ∉ host.toList ∧
      (PlainHost host ↔ hasPrefix rest "[]:" = false ∧ hasPrefix rest "[[" = false) := by
  cases shape : host.toList with
  | nil => exact absurd (String.toList_eq_nil_iff.mp shape) nonempty
  | cons c more =>
    have first : authority.toList = c :: more ++ ':' :: b.toList := by
      simp [parts, shape]
    have other : c ≠ '[' := by
      rintro rfl
      simp [stripPrefix, first] at bare
    constructor
    · intro member
      exact outside (first ▸ List.mem_append_left _ member)
    · simp [PlainHost, nonempty, shape, hasPrefix, whole, first, List.isPrefixOf, other,
        other.symm]

/-- What is read as a host has no slash in it. It is found again unless it is what empty brackets
or two opening ones leave. -/
theorem splitHostPort_ok {rest : String} (read : splitHostPort rest = .ok (host, port)) :
    '/' ∉ host.toList ∧
      (PlainHost host ↔ hasPrefix rest "[]:" = false ∧ hasPrefix rest "[[" = false) := by
  have whole : rest.toList =
      (textBefore '/' rest).toList ++ rest.toList.dropWhile (· ≠ '/') := by
    rw [textBefore, String.toList_ofList, List.takeWhile_append_dropWhile]
  have outside : '/' ∉ (textBefore '/' rest).toList := by
    intro member
    rw [textBefore, String.toList_ofList] at member
    simpa using List.mem_takeWhile_imp member
  generalize rest.toList.dropWhile (· ≠ '/') = path at whole
  simp only [splitHostPort] at read
  split at read
  · cases read
  · next nonempty =>
    split at read
    · next inner stripped =>
      rw [stripPrefix_eq_some stripped] at whole outside
      split at read
      · cases read
      · next a b cutting =>
        cases port_read read
        exact bracketed_host whole outside cutting
    · next bare =>
      split at read
      · cases read
      · next a b found =>
        split at read
        · cases read
        · next shown =>
          cases port_read read
          obtain ⟨parts, _⟩ := rsplitOnce_eq_some found
          exact bare_host whole outside bare parts shown

/-- The last character of a host and its port is a digit. -/
theorem joinedHost_ends :
    ∃ c ∈ (joinedHost host port).toList.getLast?, isWhitespace c = false := by
  have some : Nat.toDigits 10 port.toNat ≠ [] := Nat.toDigits_ne_nil
  have digit := digits_all _ (List.getLast_mem some)
  refine ⟨(Nat.toDigits 10 port.toNat).getLast some, ?_, digit_visible digit⟩
  rw [joinedHost, String.toList_append, toList_toString, List.getLast?_append,
    List.getLast?_eq_some_getLast some]
  rfl

/-- A scheme with host and port: what is shown is read as the target again if and only if the
host is found again. -/
theorem parse_joined (scheme : String) {first : Char} {make : String → UInt16 → Target}
    (begins : scheme.toList.head? = some first) (visible : isWhitespace first = false)
    (plain : ':' ∉ scheme.toList)
    (injective : ∀ h p h' p', make h p = make h' p' → h = h' ∧ p = p')
    (reads : ∀ s rest, schemeTarget s scheme rest = do
      let (host, port) ← splitHostPort rest; return make host port)
    (inside : '/' ∉ host.toList) :
    parseTarget (scheme ++ "://" ++ joinedHost host port) = .ok (make host port) ↔
      PlainHost host := by
  rw [parseTarget_scheme begins visible plain joinedHost_ends, reads]
  constructor
  · intro read
    by_cases empty : host = ""
    · subst empty
      rw [splitHostPort_empty] at read
      cases read
    · refine ⟨empty, fun opens => ?_⟩
      cases found : splitHostPort (joinedHost host port) with
      | error e =>
        rw [found] at read
        cases read
      | ok x =>
        obtain ⟨h, p⟩ := x
        rw [found] at read
        obtain ⟨rfl, rfl⟩ := injective _ _ _ _ (Except.ok.inj read)
        exact splitHostPort_bracket opens inside found
  · intro shown
    rw [splitHostPort_plain shown inside]
    rfl

end

/- Whole targets. -/

/-- The text names a host, behind its scheme, that does not get lost when it is shown: it does
not begin with empty brackets or with two opening ones. -/
def HostKept (text : String) : Prop :=
  ∀ scheme rest, splitOnceAt "://" (trim text) = some (scheme, rest) →
    toAsciiLowercase scheme ∈ ["tcp", "udp", "tls"] →
    hasPrefix rest "[]:" = false ∧ hasPrefix rest "[[" = false

section
variable {text scheme rest : String} {target : Target}

theorem parseTarget_ok (accepted : parseTarget text = .ok target) :
    trim text ≠ "" ∧ ∃ scheme rest, splitOnceAt "://" (trim text) = some (scheme, rest) ∧
      schemeTarget (trim text) scheme rest = .ok target := by
  simp only [parseTarget] at accepted
  split at accepted
  · cases accepted
  · next nonempty =>
    split at accepted
    · cases accepted
    · next scheme rest found => exact ⟨nonempty, scheme, rest, found, accepted⟩

/-- White space around a URI is not looked at. -/
theorem parseTarget_trim (nonempty : trim text ≠ "") :
    parseTarget (trim text) = parseTarget text := by
  simp only [parseTarget, trim_tight (tight_trim nonempty)]

theorem hostKept_of_other (found : splitOnceAt "://" (trim text) = some (scheme, rest))
    (other : toAsciiLowercase scheme ∉ ["tcp", "udp", "tls"]) : HostKept text := by
  intro scheme' rest' found' host
  cases found.symm.trans found'
  exact absurd host other

theorem hostKept_iff (found : splitOnceAt "://" (trim text) = some (scheme, rest))
    (host : toAsciiLowercase scheme ∈ ["tcp", "udp", "tls"]) :
    HostKept text ↔ hasPrefix rest "[]:" = false ∧ hasPrefix rest "[[" = false := by
  constructor
  · exact fun kept => kept scheme rest found host
  · intro clear scheme' rest' found' _
    cases found.symm.trans found'
    exact clear

theorem host_target {make : String → UInt16 → Target}
    (accepted : (do let (host, port) ← splitHostPort rest; return make host port) = .ok target) :
    ∃ host port, splitHostPort rest = .ok (host, port) ∧ target = make host port := by
  cases read : splitHostPort rest with
  | error e =>
    rw [read] at accepted
    cases accepted
  | ok x =>
    rw [read] at accepted
    exact ⟨x.1, x.2, rfl, (Except.ok.inj accepted).symm⟩

theorem unixPath_ok {path : String} (read : unixPath path = .ok target) :
    path ≠ "" ∧ target = .unix path := by
  rw [unixPath] at read
  split at read
  · cases read
  · next usable => exact ⟨fun none => usable (.inl none), (Except.ok.inj read).symm⟩

/-- The path that is kept is absolute and ends as the text does. -/
theorem unixTarget_ok (accepted : unixTarget rest = .ok target) :
    ∃ path, target = .unix path ∧ unixTarget path = .ok target ∧
      path.toList.getLast? = rest.toList.getLast? ∧ rest ≠ "" := by
  simp only [unixTarget] at accepted
  split at accepted
  · next absolute =>
    obtain ⟨nonempty, kept⟩ := unixPath_ok accepted
    refine ⟨rest, kept, ?_, rfl, nonempty⟩
    rw [unixTarget, if_pos absolute, accepted]
  · next relative =>
    split at accepted
    · cases accepted
    · next some =>
      obtain ⟨_, kept⟩ := unixPath_ok accepted
      have same : trimStart '/' rest = rest := by
        cases shape : rest.toList with
        | nil => simp [trimStart, shape] at some
        | cons c more =>
          have other : c ≠ '/' := by
            rintro rfl
            simp [hasPrefix, shape] at relative
          rw [trimStart, shape, List.dropWhile_cons_of_neg (by simpa using other), ← shape,
            String.ofList_toList]
      rw [same] at accepted kept some
      have absolute : hasPrefix ("/" ++ rest) "/" = true := by
        simp [hasPrefix]
      refine ⟨"/" ++ rest, kept, ?_, ?_, some⟩
      · rw [unixTarget, if_pos absolute, accepted]
      · have filled : rest.toList ≠ [] := fun none => some (String.toList_eq_nil_iff.mp none)
        rw [String.toList_append, List.getLast?_append_of_ne_nil _ filled]

/-- The text that is shown for an accepted one is read as the same target if and only if the
host of the accepted one is found again. -/
theorem display_parses_iff (accepted : parseTarget text = .ok target) :
    parseTarget target.display = .ok target ↔ HostKept text := by
  obtain ⟨nonempty, scheme, rest, found, made⟩ := parseTarget_ok accepted
  have again := parseTarget_trim nonempty
  have url (other : toAsciiLowercase scheme ∉ ["tcp", "udp", "tls"])
      (shown : target.display = trim text) :
      parseTarget target.display = .ok target ↔ HostKept text := by
    refine iff_of_true ?_ (hostKept_of_other found other)
    rw [shown, again, accepted]
  simp only [schemeTarget] at made
  split at made
  · next lower =>
    obtain ⟨host, port, read, rfl⟩ := host_target made
    obtain ⟨inside, shown⟩ := splitHostPort_ok read
    rw [hostKept_iff found (by simp [lower]), ← shown]
    exact parse_joined "tcp" rfl (by decide) (by decide) (by simp) (fun _ _ => rfl) inside
  · next lower =>
    obtain ⟨host, port, read, rfl⟩ := host_target made
    obtain ⟨inside, shown⟩ := splitHostPort_ok read
    rw [hostKept_iff found (by simp [lower]), ← shown]
    exact parse_joined "udp" rfl (by decide) (by decide) (by simp) (fun _ _ => rfl) inside
  · next lower =>
    obtain ⟨host, port, read, rfl⟩ := host_target made
    obtain ⟨inside, shown⟩ := splitHostPort_ok read
    rw [hostKept_iff found (by simp [lower]), ← shown]
    exact parse_joined "tls" rfl (by decide) (by decide) (by simp) (fun _ _ => rfl) inside
  · next lower =>
    refine iff_of_true ?_ (hostKept_of_other found (by simp [lower]))
    obtain ⟨path, rfl, read, ends, some⟩ := unixTarget_ok made
    have whole : trim text = scheme ++ "://" ++ rest := splitOnceAt_eq_some found
    have last : ∃ c ∈ path.toList.getLast?, isWhitespace c = false := by
      have filled : rest.toList ≠ [] := fun none => some (String.toList_eq_nil_iff.mp none)
      have tail := (tight_trim nonempty).last
      rw [whole, String.toList_append, List.getLast?_append_of_ne_nil _ filled] at tail
      rwa [ends]
    have begins : "unix".toList.head? = Option.some 'u' := rfl
    exact (parseTarget_scheme begins (by decide) (by decide) last).trans read
  · next lower => exact url (by simp [lower]) (by rw [← Except.ok.inj made, Target.display])
  · next lower => exact url (by simp [lower]) (by rw [← Except.ok.inj made, Target.display])
  · next lower => exact url (by simp [lower]) (by rw [← Except.ok.inj made, Target.display])
  · next lower => exact url (by simp [lower]) (by rw [← Except.ok.inj made, Target.display])
  · cases made

end

/-- A bracketed address is shown bare and read at its last colon. -/
theorem display_parses_address :
    parseTarget (Target.tcp "::1" 8080).display = .ok (.tcp "::1" 8080) ↔
      HostKept "TCP://[::1]:8080/x" := by
  have accepted : parseTarget "TCP://[::1]:8080/x" = .ok (.tcp "::1" 8080) := by rfl
  exact display_parses_iff accepted

/-- An empty host is accepted in brackets only, and shown without them. -/
theorem empty_host_lost :
    parseTarget "tcp://[]:80" = .ok (.tcp "" 80) ∧
    parseTarget (Target.tcp "" 80).display = .error (.invalidHostPort ":80") := by
  constructor <;> rfl

end BitBeak.Cli
