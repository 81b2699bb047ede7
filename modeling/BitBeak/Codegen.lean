import BitBeak.Http.Client
import BitBeak.Lib.Shell

/-! The curl script of a collection, and what a shell reads in it: one command for each request
where its texts stay inside their comments, words and quotes. -/
namespace BitBeak.Codegen
open Http Shell

/-- What the curl script is made from. -/
structure SavedRequest where
  name : String := ""
  target : String := ""
  method : Option String := some "GET"
  headers : Headers := []
  body : String := ""
  auth : AuthKind := .none
  authToken : String := ""
  authUser : String := ""
  authPass : String := ""
  authKey : String := "X-Api-Key"
  authValue : String := ""
  deriving DecidableEq, Repr

structure Collection where
  name : String := ""
  requests : List SavedRequest := []
  deriving DecidableEq, Repr

/-- `replace` of a single quote. -/
def replaceQuote (new : Text) (text : String) : String :=
  String.ofList (text.toList.flatMap fun c => if c = quote then new else [c])

def emitHeader (header : String × String) : String :=
  " \\\n  -H '" ++ replaceQuote [] header.1 ++ ": " ++ replaceQuote [] header.2 ++ "'"

def emitCurlAuth (r : SavedRequest) : String :=
  match r.auth with
  | .none | .apiKeyQuery => ""
  | .bearer | .oauth2 =>
    if r.authToken ≠ "" then
      " \\\n  -H 'Authorization: Bearer " ++ replaceQuote [] r.authToken ++ "'"
    else ""
  | .basic =>
    " \\\n  -u '" ++ replaceQuote [] r.authUser ++ ":" ++ replaceQuote [] r.authPass ++ "'"
  | .apiKeyHeader =>
    if r.authKey ≠ "" then
      " \\\n  -H '" ++ replaceQuote [] r.authKey ++ ": " ++ replaceQuote [] r.authValue ++ "'"
    else ""

section emitting
variable (urlencode : String → String)

def curlTarget (r : SavedRequest) : String :=
  let target :=
    if r.auth = .apiKeyQuery ∧ r.authKey ≠ "" then
      let sep := if '?' ∈ r.target.toList then "&" else "?"
      r.target ++ sep ++ r.authKey ++ "=" ++ urlencode r.authValue
    else r.target
  replaceQuote ['%', '2', '7'] target

def SavedRequest.curlMethod (r : SavedRequest) : String := r.method.getD "GET"

/-- One turn of the loop over the requests. -/
def emitCurlRequest (r : SavedRequest) : String :=
  "# " ++ r.name ++ "\n" ++ "curl -sS -X " ++ r.curlMethod ++ emitCurlAuth r ++
    String.join (r.headers.map emitHeader) ++
    if r.body ≠ "" then
      " \\\n  --data-binary @- <<'EOF'\n" ++ r.body ++ "\nEOF\n" ++
        "  '" ++ curlTarget urlencode r ++ "'\n\n"
    else " \\\n  '" ++ curlTarget urlencode r ++ "'\n\n"

def emitCurl (col : Collection) : String :=
  "#!/usr/bin/env bash\nset -euo pipefail\n\n" ++
    String.join (col.requests.map (emitCurlRequest urlencode))

end emitting

/- The script in pieces, the saved texts among them marked. -/

/-- An option of a curl command and its value, the saved texts in it marked. -/
structure Argument where
  flag : Text
  value : List (Text × Bool)
  bare : isBareText none flag = true
  nonempty : flag ≠ []
  unquoted : ∀ t, (t, false) ∈ value → quote ∉ t

namespace Argument

/-- The value as the request has it. -/
def word (a : Argument) : Text := a.value.flatMap Prod.fst

def saved (a : Argument) : List Text := (a.value.filter Prod.snd).map Prod.fst

/-- What is written for a part of the value: saved texts lose their quotes. -/
def writtenPart (part : Text × Bool) : Text :=
  if part.2 then part.1.filter (· ≠ quote) else part.1

def written (a : Argument) : Script := a.value.flatMap fun part => tagged part.2 (writtenPart part)

def script (a : Argument) : Script :=
  continued ++ (tagged false a.flag ++ fixed [' ']) ++ inQuotes a.written

end Argument

def headerArgument (name value : String) : Argument where
  flag := ['-', 'H']
  value := [(name.toList, true), ([':', ' '], false), (value.toList, true)]
  bare := by decide
  nonempty := by decide
  unquoted := by simp [quote]

def bearerArgument (token : String) : Argument where
  flag := ['-', 'H']
  value := [("Authorization: Bearer ".toList, false), (token.toList, true)]
  bare := by decide
  nonempty := by decide
  unquoted := by simp [quote]

def basicArgument (user pass : String) : Argument where
  flag := ['-', 'u']
  value := [(user.toList, true), ([':'], false), (pass.toList, true)]
  bare := by decide
  nonempty := by decide
  unquoted := by simp [quote]

def authArgument (r : SavedRequest) : Option Argument :=
  match r.auth with
  | .none | .apiKeyQuery => none
  | .bearer | .oauth2 => if r.authToken ≠ "" then some (bearerArgument r.authToken) else none
  | .basic => some (basicArgument r.authUser r.authPass)
  | .apiKeyHeader =>
    if r.authKey ≠ "" then some (headerArgument r.authKey r.authValue) else none

def curlArguments (r : SavedRequest) : List Argument :=
  (authArgument r).toList ++
    r.headers.map fun header => headerArgument header.1 header.2

section marks
variable (urlencode : String → String)

def bodyAndTarget (r : SavedRequest) : Script :=
  let target := inQuotes (marked (curlTarget urlencode r).toList) ++ fixed "\n\n".toList
  if r.body = "" then target
  else
    fixed "--data-binary @- <<'EOF'\n".toList ++
      (marked r.body.toList ++ fixed "\nEOF\n".toList ++ fixed "  ".toList ++ target)

def requestScript (r : SavedRequest) : Script :=
  (fixed "# ".toList ++ marked r.name.toList ++ fixed "\n".toList) ++
    ((fixed "curl -sS -X ".toList ++ marked r.curlMethod.toList) ++
      ((curlArguments r).flatMap Argument.script ++ (continued ++ bodyAndTarget urlencode r)))

def curlScript (col : Collection) : Script :=
  fixed "#!/usr/bin/env bash\nset -euo pipefail\n\n".toList ++
    col.requests.flatMap (requestScript urlencode)

/-- The command that sends a request: its method, headers and target are arguments, its body is
the input. -/
def curlCommand (r : SavedRequest) : Command where
  words := ["curl".toList, "-sS".toList, "-X".toList, r.curlMethod.toList] ++
    (curlArguments r).flatMap (fun a => [a.flag, a.word]) ++
    (if r.body = "" then [] else ["--data-binary".toList, "@-".toList]) ++
    [(curlTarget urlencode r).toList]
  stdin := if r.body = "" then none else some r.body.toList

end marks

def setCommand : Command := ⟨["set".toList, "-euo".toList, "pipefail".toList], none⟩

/-- A request whose export is the command that sends it. -/
structure Exportable (r : SavedRequest) : Prop where
  oneLine : '\n' ∉ r.name.toList
  method : r.curlMethod ≠ "" ∧ isBareText none r.curlMethod.toList = true
  unquoted : ∀ a ∈ curlArguments r, ∀ t ∈ a.saved, quote ∉ t
  bodyless : r.body = ""

/- The pieces are the script. -/

theorem text_flatMap {α : Type} (l : List α) (f : α → Script) :
    Script.text (l.flatMap f) = l.flatMap fun a => (f a).text := List.map_flatMap

theorem replaceQuote_nil (text : String) :
    (replaceQuote [] text).toList = text.toList.filter (· ≠ quote) := by
  simp only [replaceQuote, String.toList_ofList]
  induction text.toList with
  | nil => rfl
  | cons c rest ih => by_cases hc : c = quote <;> simp [hc, ih]

theorem written_text (a : Argument) : a.written.text = a.value.flatMap Argument.writtenPart := by
  simp [Argument.written, text_flatMap]

theorem argument_text (a : Argument) :
    a.script.text =
      " \\\n  ".toList ++ a.flag ++ [' ', quote] ++ a.value.flatMap Argument.writtenPart ++ [quote] := by
  simp [Argument.script, continued, inQuotes, written_text]

theorem header_text (name value : String) :
    (headerArgument name value).script.text = (emitHeader (name, value)).toList := by
  have front : " \\\n  -H '".toList = " \\\n  ".toList ++ ['-', 'H'] ++ [' ', quote] := rfl
  have colon : ": ".toList = [':', ' '] := rfl
  have last : "'".toList = [quote] := rfl
  simp only [argument_text, headerArgument, emitHeader, String.toList_append,
    replaceQuote_nil, front, colon, last]
  simp [Argument.writtenPart]

theorem bearer_text (token : String) :
    (bearerArgument token).script.text =
      (" \\\n  -H 'Authorization: Bearer " ++ replaceQuote [] token ++ "'").toList := by
  have front : " \\\n  -H 'Authorization: Bearer ".toList =
      " \\\n  ".toList ++ ['-', 'H'] ++ [' ', quote] ++ "Authorization: Bearer ".toList := rfl
  have last : "'".toList = [quote] := rfl
  simp only [argument_text, bearerArgument, String.toList_append,
    replaceQuote_nil, front, last]
  simp [Argument.writtenPart]

theorem basic_text (user pass : String) :
    (basicArgument user pass).script.text =
      (" \\\n  -u '" ++ replaceQuote [] user ++ ":" ++ replaceQuote [] pass ++ "'").toList := by
  have front : " \\\n  -u '".toList = " \\\n  ".toList ++ ['-', 'u'] ++ [' ', quote] := rfl
  have colon : ":".toList = [':'] := rfl
  have last : "'".toList = [quote] := rfl
  simp only [argument_text, basicArgument, String.toList_append,
    replaceQuote_nil, front, colon, last]
  simp [Argument.writtenPart]

theorem auth_text (r : SavedRequest) :
    Script.text ((authArgument r).toList.flatMap Argument.script) = (emitCurlAuth r).toList := by
  unfold authArgument emitCurlAuth
  cases r.auth <;> dsimp only
  case bearer | oauth2 =>
    split
    · simpa using bearer_text r.authToken
    · rfl
  case basic => simpa using basic_text r.authUser r.authPass
  case apiKeyHeader =>
    split
    · simpa [emitHeader] using header_text r.authKey r.authValue
    · rfl
  all_goals rfl

section scripts
variable (urlencode : String → String)

theorem request_text (r : SavedRequest) :
    (requestScript urlencode r).text = (emitCurlRequest urlencode r).toList := by
  have headers : Script.text ((r.headers.map fun header =>
      headerArgument header.1 header.2).flatMap Argument.script) =
      (String.join (r.headers.map emitHeader)).toList := by
    simp only [text_flatMap, List.flatMap_map, header_text, String.toList_join]
  have document : " \\\n  --data-binary @- <<'EOF'\n".toList =
      " \\\n  ".toList ++ "--data-binary @- <<'EOF'\n".toList := rfl
  have opened : " \\\n  '".toList = " \\\n  ".toList ++ [quote] := rfl
  have openedBehind : "  '".toList = "  ".toList ++ [quote] := rfl
  have closed : "'\n\n".toList = [quote] ++ "\n\n".toList := rfl
  simp only [requestScript, emitCurlRequest, curlArguments, List.flatMap_append, text_append,
    auth_text, headers, continued, text_fixed, text_marked, String.toList_append, List.append_assoc]
  by_cases hb : r.body = ""
  · simp only [hb, bodyAndTarget, inQuotes, if_true, ne_eq, not_true, if_false, text_append,
      text_fixed, text_marked, String.toList_append, opened, closed, List.append_assoc]
  · simp only [hb, bodyAndTarget, inQuotes, if_false, ne_eq, not_false_iff, if_true, text_append,
      text_fixed, text_marked, String.toList_append, document, openedBehind, closed,
      List.append_assoc]

theorem curlScript_text (col : Collection) :
    (curlScript urlencode col).text = (emitCurl urlencode col).toList := by
  have requests : Script.text (col.requests.flatMap (requestScript urlencode)) =
      (String.join (col.requests.map (emitCurlRequest urlencode))).toList := by
    simp only [text_flatMap, request_text, String.toList_join, List.flatMap_map]
  unfold curlScript emitCurl
  rw [text_append, text_fixed, requests, String.toList_append]

/- What a shell reads in it. -/

theorem unquoted_written (a : Argument) : quote ∉ a.written.text := by
  rw [written_text, List.mem_flatMap]
  rintro ⟨⟨t, mark⟩, hpart, hquote⟩
  cases mark with
  | false => exact a.unquoted t hpart hquote
  | true => simp [Argument.writtenPart] at hquote

theorem lex_argument (cs : List Command) (ws : List Text) (w : Option Text) (a : Argument) :
    lex ⟨cs, ws, none, bareMode w⟩ a.script =
      some ⟨cs, ws ++ w.toList ++ [a.flag], none, bareMode (some a.written.text)⟩ := by
  rw [Argument.script, List.append_assoc, lex_append_of (lex_continued cs ws w),
    lex_append_of (lex_word cs _ false a.flag a.bare a.nonempty)]
  exact lex_inQuotes cs _ a.written (unquoted_written a)

theorem lex_arguments (cs : List Command) (as : List Argument) (ws : List Text)
    (w : Option Text) :
    ∃ ws' w', lex ⟨cs, ws, none, bareMode w⟩ (as.flatMap Argument.script) =
        some ⟨cs, ws', none, bareMode w'⟩ ∧
      ws' ++ w'.toList = ws ++ w.toList ++ as.flatMap fun a => [a.flag, a.written.text] := by
  induction as generalizing ws w with
  | nil => exact ⟨ws, w, rfl, by simp⟩
  | cons a rest ih =>
    obtain ⟨ws', w', hread, hwords⟩ := ih (ws ++ w.toList ++ [a.flag]) (some a.written.text)
    refine ⟨ws', w', ?_, ?_⟩
    · rw [List.flatMap_cons, lex_append_of (lex_argument cs ws w a), hread]
    · rw [hwords]
      simp

/-- The words in front of body and target, as the shell reads them: no method is no word. -/
def writtenWords (r : SavedRequest) : List Text :=
  ["curl".toList, "-sS".toList, "-X".toList] ++
    (if r.curlMethod.toList = [] then [] else [r.curlMethod.toList]) ++
    (curlArguments r).flatMap fun a => [a.flag, a.written.text]

theorem lex_name (cs : List Command) (name : Text) :
    lex (between cs) (fixed "# ".toList ++ marked name ++ fixed "\n".toList) =
      if '\n' ∈ name then none else some (between cs) := by
  have opened : lex (between cs) (fixed "# ".toList) = some ⟨cs, [], none, .comment⟩ := rfl
  rw [List.append_assoc, lex_append_of opened, lex_append, lex_comment]
  split <;> rfl

theorem lex_method (cs : List Command) (method : Text) :
    lex (between cs) (fixed "curl -sS -X ".toList ++ marked method) =
      if isBareText none method then
        some ⟨cs, ["curl".toList, "-sS".toList, "-X".toList], none,
          bareMode (if method = [] then none else some method)⟩
      else none := by
  have called : lex (between cs) (fixed "curl -sS -X ".toList) =
      some ⟨cs, ["curl".toList, "-sS".toList, "-X".toList], none, bareMode none⟩ := rfl
  rw [lex_append_of called, lex_bare_marked]
  simp

theorem lex_request (cs : List Command) (r : SavedRequest) :
    lex (between cs) (requestScript urlencode r) =
      if '\n' ∉ r.name.toList ∧ isBareText none r.curlMethod.toList then
        lex ⟨cs, writtenWords r, none, .blank⟩ (bodyAndTarget urlencode r)
      else none := by
  rw [requestScript, lex_append, lex_name]
  by_cases hname : '\n' ∈ r.name.toList
  · simp [hname]
  · rw [if_neg hname, Option.bind_some, lex_append, lex_method]
    by_cases bare : isBareText none r.curlMethod.toList = true
    · obtain ⟨ws, w, hread, hwords⟩ := lex_arguments cs (curlArguments r)
        ["curl".toList, "-sS".toList, "-X".toList]
        (if r.curlMethod.toList = [] then none else some r.curlMethod.toList)
      have words : ws ++ w.toList = writtenWords r := by
        rw [hwords, writtenWords]
        split <;> rfl
      rw [if_pos bare, Option.bind_some, lex_append_of hread,
        lex_append_of (lex_continued cs ws w), words, if_pos ⟨hname, bare⟩]
    · simp [bare]

theorem lex_target (cs : List Command) (ws : List Text) (r : SavedRequest) (hb : r.body = "") :
    lex ⟨cs, ws, none, .blank⟩ (bodyAndTarget urlencode r) =
      some (between (cs ++ [⟨ws ++ [(curlTarget urlencode r).toList], none⟩])) := by
  have outside : quote ∉ (marked (curlTarget urlencode r).toList).text := by
    simp only [text_marked, curlTarget, replaceQuote, String.toList_ofList, List.mem_flatMap,
      not_exists, not_and]
    intro c hc
    split
    · decide
    · simpa [eq_comm]
  have lines : fixed "\n\n".toList = fixed ['\n'] ++ fixed ['\n'] := rfl
  rw [bodyAndTarget, if_pos hb, lex_append_of (lex_inQuotes cs ws _ outside), text_marked, lines,
    lex_append_of (lex_endOfLine cs ws _)]
  rfl

/-- The line that announces a body ends the command it is the input of. -/
theorem lex_document (cs : List Command) (ws : List Text) (r : SavedRequest) (hb : r.body ≠ "") :
    ∃ rest, lex ⟨cs, ws, none, .blank⟩ (bodyAndTarget urlencode r) =
      lex ⟨cs ++ [⟨ws ++ ["--data-binary".toList] ++ ["@-".toList], some []⟩], [], none,
        .document "EOF".toList []⟩ rest := by
  have announced : lex ⟨cs, ws, none, .blank⟩ (fixed "--data-binary @- <<'EOF'\n".toList) =
      some ⟨cs ++ [⟨ws ++ ["--data-binary".toList] ++ ["@-".toList], some []⟩], [], none,
        .document "EOF".toList []⟩ := rfl
  rw [bodyAndTarget, if_neg hb, lex_append_of announced]
  exact ⟨_, rfl⟩

end scripts

/- Which texts are read as they were saved. -/

theorem length_flatMap_le {α β : Type} {f g : α → List β} {l : List α}
    (shorter : ∀ a ∈ l, (f a).length ≤ (g a).length) :
    (l.flatMap f).length ≤ (l.flatMap g).length := by
  induction l with
  | nil => exact le_rfl
  | cons a rest ih =>
    simp only [List.mem_cons, forall_eq_or_imp] at shorter
    have first := shorter.1
    have behind := ih shorter.2
    simp only [List.flatMap_cons, List.length_append]
    omega

/-- Parts that are no longer than others make up the same text where each is the other. -/
theorem flatMap_eq_iff {α β : Type} {f g : α → List β} {l : List α}
    (shorter : ∀ a ∈ l, (f a).length ≤ (g a).length) :
    l.flatMap f = l.flatMap g ↔ ∀ a ∈ l, f a = g a := by
  induction l with
  | nil => simp
  | cons a rest ih =>
    simp only [List.mem_cons, forall_eq_or_imp] at shorter
    obtain ⟨first, others⟩ := shorter
    have behind := length_flatMap_le others
    simp only [List.flatMap_cons, List.mem_cons, forall_eq_or_imp, ← ih others]
    constructor
    · intro same
      have lengths := congrArg List.length same
      simp only [List.length_append] at lengths
      exact List.append_inj same (by omega)
    · rintro ⟨same, tails⟩
      rw [same, tails]

theorem written_eq_iff (a : Argument) :
    a.written.text = a.word ↔ ∀ t ∈ a.saved, quote ∉ t := by
  have shorter : ∀ part ∈ a.value, (Argument.writtenPart part).length ≤ part.1.length := by
    intro part _
    unfold Argument.writtenPart
    split
    · exact List.length_filter_le _ _
    · exact le_rfl
  rw [written_text, Argument.word, flatMap_eq_iff shorter]
  constructor
  · intro same t ht
    obtain ⟨⟨t', mark⟩, hpart, rfl⟩ := List.mem_map.mp ht
    obtain ⟨hvalue, hmark⟩ := List.mem_filter.mp hpart
    intro hquote
    have kept := same _ hvalue
    rw [Argument.writtenPart, if_pos hmark, List.filter_eq_self] at kept
    simpa using kept _ hquote
  · rintro none ⟨t, mark⟩ hpart
    cases mark with
    | false => rfl
    | true =>
      have ht : t ∈ a.saved :=
        List.mem_map.mpr ⟨(t, true), List.mem_filter.mpr ⟨hpart, rfl⟩, rfl⟩
      have outside := none t ht
      simp only [Argument.writtenPart, if_true, List.filter_eq_self]
      intro c hc
      simpa using ne_of_mem_of_not_mem hc outside

theorem arguments_eq_iff (as : List Argument) :
    (as.flatMap fun a => [a.flag, a.written.text]) = (as.flatMap fun a => [a.flag, a.word]) ↔
      ∀ a ∈ as, ∀ t ∈ a.saved, quote ∉ t := by
  have pairs : ∀ a ∈ as, [a.flag, a.written.text].length ≤ [a.flag, a.word].length :=
    fun _ _ => le_rfl
  rw [flatMap_eq_iff pairs]
  simp only [List.cons.injEq, true_and, and_true, written_eq_iff]

theorem arguments_length (as : List Argument) :
    (as.flatMap fun a => [a.flag, a.written.text]).length =
      (as.flatMap fun a => [a.flag, a.word]).length := by
  simp [List.length_flatMap]

section exports
variable (urlencode : String → String)

theorem words_eq_iff (r : SavedRequest) (hb : r.body = "") :
    writtenWords r ++ [(curlTarget urlencode r).toList] = (curlCommand urlencode r).words ↔
      r.curlMethod ≠ "" ∧ ∀ a ∈ curlArguments r, ∀ t ∈ a.saved, quote ∉ t := by
  have empty : r.curlMethod.toList = [] ↔ r.curlMethod = "" := String.toList_eq_nil_iff
  rw [writtenWords, curlCommand, ← arguments_eq_iff, Ne, ← empty]
  by_cases hm : r.curlMethod.toList = []
  · have lengths := arguments_length (curlArguments r)
    simp only [hm, if_true, not_true, false_and, iff_false]
    intro same
    have := congrArg List.length same
    simp only [hb, if_true, List.length_append, List.length_cons, List.length_nil, lengths] at this
    omega
  · simp [hm, hb]

/-- With a body the words end in front of the target. -/
theorem body_words (r : SavedRequest) (hb : r.body ≠ "") :
    writtenWords r ++ ["--data-binary".toList] ++ ["@-".toList] ≠
      (curlCommand urlencode r).words := by
  intro same
  have lengths := arguments_length (curlArguments r)
  have count := congrArg List.length same
  simp only [writtenWords, curlCommand, hb, if_false, List.length_append, List.length_cons,
    List.length_nil, lengths] at count
  split at count
  · simp only [List.length_nil] at count
    omega
  · simp only [List.length_cons, List.length_nil] at count
    omega

theorem words_of_begins {s : State} {cs : List Command} {command other : Command}
    {rest : List Command} (hs : s.commands = cs ++ [command])
    (h : s.ran <+: (cs ++ other :: rest).map Command.words) : command.words = other.words := by
  simp only [State.ran, hs, List.map_append, List.map_cons, List.map_nil,
    List.prefix_append_right_inj, List.cons_prefix_cons] at h
  exact h.1

theorem lex_requests_iff (requests : List SavedRequest) (cs : List Command) :
    (lex (between cs) (requests.flatMap (requestScript urlencode))).map
        (fun s => (step s '\n').2.commands) = some (cs ++ requests.map (curlCommand urlencode)) ↔
      ∀ r ∈ requests, Exportable r := by
  induction requests generalizing cs with
  | nil => simp [lex, between, step, stepBare, isBare, isBlank, State.endWord, State.endLine,
      State.at_]
  | cons r rest ih =>
    rw [List.flatMap_cons, lex_append, lex_request, List.map_cons, List.forall_mem_cons]
    by_cases read : '\n' ∉ r.name.toList ∧ isBareText none r.curlMethod.toList = true
    case neg =>
      rw [if_neg read]
      constructor
      · intro h
        cases h
      · intro h
        exact absurd ⟨h.1.oneLine, h.1.method.2⟩ read
    rw [if_pos read]
    by_cases hb : r.body = ""
    case neg =>
      obtain ⟨document, announced⟩ := lex_document urlencode cs (writtenWords r) r hb
      rw [announced, ← lex_append]
      constructor
      · intro h
        exact absurd (words_of_begins rfl (ran_commands h)) (body_words urlencode r hb)
      · intro h
        exact absurd h.1.bodyless hb
    rw [lex_target urlencode cs (writtenWords r) r hb, Option.bind_some]
    by_cases same : writtenWords r ++ [(curlTarget urlencode r).toList] =
        (curlCommand urlencode r).words
    · have command : (⟨writtenWords r ++ [(curlTarget urlencode r).toList], none⟩ : Command) =
          curlCommand urlencode r := by
        rw [same]
        simp [curlCommand, hb]
      obtain ⟨hm, unquoted⟩ := (words_eq_iff urlencode r hb).mp same
      have exportable : Exportable r := ⟨read.1, ⟨hm, read.2⟩, unquoted, hb⟩
      have tail := ih (cs ++ [curlCommand urlencode r])
      rw [List.append_assoc, List.singleton_append] at tail
      rw [command, tail]
      simp [exportable]
    · constructor
      · intro h
        exact absurd (words_of_begins rfl (ran_commands h)) same
      · intro h
        exact absurd ((words_eq_iff urlencode r hb).mpr ⟨h.1.method.1, h.1.unquoted⟩) same

/-- The target of a request with a body is left behind as a command of its own. -/
theorem target_becomes_command :
    let r : SavedRequest :=
      { name := "p", target := "u", method := some "POST", body := "b" }
    (emitCurl id { requests := [r] } =
      "#!/usr/bin/env bash\nset -euo pipefail\n\n# p\ncurl -sS -X POST \\\n" ++
        "  --data-binary @- <<'EOF'\nb\nEOF\n  'u'\n\n") ∧
    commandsOf (curlScript id { requests := [r] }) =
      some [setCommand,
        ⟨["curl", "-sS", "-X", "POST", "--data-binary", "@-"].map String.toList,
          some "b\n".toList⟩,
        ⟨["u".toList], none⟩] ∧
    commandsOf (curlScript id { requests := [r] }) ≠ some [setCommand, curlCommand id r] := by
  decide +kernel

/-- The marked script is the exported one, and a shell that reads it runs the command of each
request and nothing else where every request is exportable, and only there. -/
theorem export_iff (col : Collection) :
    (curlScript urlencode col).text = (emitCurl urlencode col).toList ∧
    (commandsOf (curlScript urlencode col) =
        some (setCommand :: col.requests.map (curlCommand urlencode)) ↔
      ∀ r ∈ col.requests, Exportable r) := by
  refine ⟨curlScript_text urlencode col, ?_⟩
  have heading : lex (between []) (fixed "#!/usr/bin/env bash\nset -euo pipefail\n\n".toList) =
      some (between [setCommand]) := rfl
  rw [commandsOf, curlScript, lex_append_of heading]
  exact lex_requests_iff urlencode col.requests [setCommand]

end exports

end BitBeak.Codegen
