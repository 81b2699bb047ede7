import BitBeak.Codegen
import BitBeak.Collections
import BitBeak.Lib.Replace
import BitBeak.Lib.RustLiterals

/-! The Rust client of a collection, and what Rust reads in it: the saved texts, where none of them
ends its literal or its comment. -/
namespace BitBeak.Codegen
open Http
open Collections (replace)

def rustTarget (r : SavedRequest) : String :=
  if r.auth = .apiKeyQuery ∧ r.authKey ≠ "" then
    let sep := if '?' ∈ r.target.toList then "&" else "?"
    r.target ++ sep ++ r.authKey ++ "=" ++ r.authValue
  else r.target

def emitRustHeader (name value : String) : String :=
  "\n        .header(\"" ++ replace name "\"" "" ++ "\", \"" ++ replace value "\"" "\\\"" ++ "\")"

def emitRustAuth (r : SavedRequest) : String :=
  match r.auth with
  | .none | .apiKeyQuery => ""
  | .bearer | .oauth2 =>
    if r.authToken ≠ "" then
      "\n        .bearer_auth(\"" ++ replace r.authToken "\"" "\\\"" ++ "\")"
    else ""
  | .basic =>
    "\n        .basic_auth(\"" ++ replace r.authUser "\"" "\\\"" ++ "\", Some(\"" ++
      replace r.authPass "\"" "\\\"" ++ "\"))"
  | .apiKeyHeader => if r.authKey ≠ "" then emitRustHeader r.authKey r.authValue else ""

def SavedRequest.rustMethod (r : SavedRequest) : String := toAsciiLowercase (r.method.getD "GET")

/-- One turn of the loop over the requests. -/
def emitRustRequest (r : SavedRequest) : String :=
  "    // " ++ r.name ++ "\n" ++
    "    let _ = client." ++ r.rustMethod ++ "(\"" ++ replace (rustTarget r) "\"" "\\\"" ++ "\")" ++
    emitRustAuth r ++ String.join (r.headers.map fun (k, v) => emitRustHeader k v) ++
    (if r.body ≠ "" then "\n        .body(r#\"" ++ replace r.body "\"#" "\"\\#" ++ "\"#)" else "") ++
    "\n        .send().await?;\n"

/-- The first line is a comment with the name of the program: `banner`. -/
def emitRust (banner : String) (col : Collection) : String :=
  "// " ++ banner ++ "\nuse reqwest::Client;\n\n" ++
    "pub async fn run_all() -> Result<(), Box<dyn std::error::Error>> \x7b\n" ++
    "    let client = Client::new();\n" ++ String.join (col.requests.map emitRustRequest) ++
    "    Ok(())\n\x7d\n"

/- The client in pieces, with the texts that are saved. -/

/-- A piece of the client: code, a comment up to the end of its line, a string literal with or
without quotes inside, or a raw string literal. -/
inductive Piece where
  | code (text : String)
  | comment (saved : String)
  | value (saved : String)
  | name (saved : String)
  | raw (saved : String)
  deriving DecidableEq, Repr

namespace Piece

def text : Piece → String
  | code text => text
  | comment saved => "// " ++ saved ++ "\n"
  | value saved => "\"" ++ replace saved "\"" "\\\"" ++ "\""
  | name saved => "\"" ++ replace saved "\"" "" ++ "\""
  | raw saved => "r#\"" ++ replace saved "\"#" "\"\\#" ++ "\"#"

/-- In front of the rest of the file, Rust reads the piece as it is meant: a literal denotes the
saved text and ends with the piece, and a comment ends with the line of the piece. -/
def ReadBefore (back : Rust.Text) (p : Piece) : Prop :=
  let read := Rust.normalize (p.text.toList ++ back)
  match p with
  | code _ => True
  | comment _ => ∃ c, Rust.lineComment read = some (c, '\n' :: Rust.normalize back)
  | value saved | name saved =>
    Rust.stringLiteral read = some (saved.toList, Rust.normalize back)
  | raw saved => Rust.rawStringLiteral read = some (saved.toList, Rust.normalize back)

end Piece

def textOf (pieces : List Piece) : Rust.Text := pieces.flatMap fun p => p.text.toList

def headerPieces (name value : String) : List Piece :=
  [.code "\n        .header(", .name name, .code ", ", .value value, .code ")"]

def authPieces (r : SavedRequest) : List Piece :=
  match r.auth with
  | .none | .apiKeyQuery => []
  | .bearer | .oauth2 =>
    if r.authToken ≠ "" then
      [.code "\n        .bearer_auth(", .value r.authToken, .code ")"]
    else []
  | .basic =>
    [.code "\n        .basic_auth(", .value r.authUser, .code ", Some(", .value r.authPass,
      .code "))"]
  | .apiKeyHeader => if r.authKey ≠ "" then headerPieces r.authKey r.authValue else []

def bodyPieces (r : SavedRequest) : List Piece :=
  if r.body ≠ "" then [.code "\n        .body(", .raw r.body, .code ")"] else []

def requestPieces (r : SavedRequest) : List Piece :=
  [.code "    ", .comment r.name, .code ("    let _ = client." ++ r.rustMethod ++ "("),
    .value (rustTarget r), .code ")"] ++ authPieces r ++
    r.headers.flatMap (fun h => headerPieces h.1 h.2) ++ bodyPieces r ++
    [.code "\n        .send().await?;\n"]

def rustPieces (banner : String) (col : Collection) : List Piece :=
  .code ("// " ++ banner ++ "\nuse reqwest::Client;\n\n" ++
    "pub async fn run_all() -> Result<(), Box<dyn std::error::Error>> \x7b\n" ++
    "    let client = Client::new();\n") ::
    (col.requests.flatMap requestPieces ++ [.code "    Ok(())\n\x7d\n"])

/-- A text without backslashes and carriage returns. -/
def Plain (s : String) : Prop := '\\' ∉ s.toList ∧ '\r' ∉ s.toList

/-- A text that is no more than itself between quotes. -/
def PlainName (s : String) : Prop := Plain s ∧ '"' ∉ s.toList

/-- A request whose texts all stay what they are. -/
structure RustSafe (r : SavedRequest) : Prop where
  oneLine : '\n' ∉ r.name.toList
  target : Plain r.target
  query : r.auth = .apiKeyQuery → r.authKey ≠ "" → Plain r.authKey ∧ Plain r.authValue
  token : r.auth = .bearer ∨ r.auth = .oauth2 → Plain r.authToken
  basic : r.auth = .basic → Plain r.authUser ∧ Plain r.authPass
  apiKey : r.auth = .apiKeyHeader → r.authKey ≠ "" → PlainName r.authKey ∧ Plain r.authValue
  headers : ∀ h ∈ r.headers, PlainName h.1 ∧ Plain h.2
  body : '\r' ∉ r.body.toList ∧ ¬ ['"', '#'] <:+: r.body.toList

/- The pieces are the client. -/

section

-- The equations of the pieces are made here, once.
attribute [local simp] Piece.text textOf headerPieces authPieces bodyPieces

end

theorem textOf_append (a b : List Piece) : textOf (a ++ b) = textOf a ++ textOf b :=
  List.flatMap_append

theorem textOf_nil : textOf [] = [] := rfl

theorem textOf_cons (p : Piece) (pieces : List Piece) :
    textOf (p :: pieces) = p.text.toList ++ textOf pieces := List.flatMap_cons

theorem header_pieces (name value : String) :
    textOf (headerPieces name value) = (emitRustHeader name value).toList := by
  have front : "\n        .header(\"" = "\n        .header(" ++ "\"" := rfl
  have between : "\", \"" = "\"" ++ (", " ++ "\"") := rfl
  have last : "\")" = "\"" ++ ")" := rfl
  unfold emitRustHeader
  rw [front, between, last]
  simp only [headerPieces, textOf_cons, textOf_nil, Piece.text, String.toList_append,
    List.append_assoc, List.append_nil]

theorem auth_pieces (r : SavedRequest) : textOf (authPieces r) = (emitRustAuth r).toList := by
  have last : "\")" = "\"" ++ ")" := rfl
  unfold authPieces emitRustAuth
  cases r.auth with
  | none | apiKeyQuery => rfl
  | bearer | oauth2 =>
    have front : "\n        .bearer_auth(\"" = "\n        .bearer_auth(" ++ "\"" := rfl
    dsimp only
    split
    · simp only [front, last, textOf_cons, textOf_nil, Piece.text, String.toList_append,
        List.append_assoc, List.append_nil]
    · rfl
  | basic =>
    have front : "\n        .basic_auth(\"" = "\n        .basic_auth(" ++ "\"" := rfl
    have between : "\", Some(\"" = "\"" ++ (", Some(" ++ "\"") := rfl
    have last : "\"))" = "\"" ++ "))" := rfl
    simp only [front, between, last, textOf_cons, textOf_nil, Piece.text, String.toList_append,
      List.append_assoc, List.append_nil]
  | apiKeyHeader =>
    dsimp only
    split
    · exact header_pieces r.authKey r.authValue
    · rfl

theorem body_pieces (r : SavedRequest) :
    textOf (bodyPieces r) = (if r.body ≠ "" then
      "\n        .body(r#\"" ++ replace r.body "\"#" "\"\\#" ++ "\"#)" else "").toList := by
  unfold bodyPieces
  split
  · have front : "\n        .body(r#\"" = "\n        .body(" ++ "r#\"" := rfl
    have last : "\"#)" = "\"#" ++ ")" := rfl
    simp only [front, last, textOf_cons, textOf_nil, Piece.text, String.toList_append,
      List.append_assoc, List.append_nil]
  · rfl

theorem textOf_flatMap {α : Type} (l : List α) (f : α → List Piece) :
    textOf (l.flatMap f) = l.flatMap fun a => textOf (f a) := List.flatMap_assoc

theorem request_pieces (r : SavedRequest) :
    textOf (requestPieces r) = (emitRustRequest r).toList := by
  have front : "    // " = "    " ++ "// " := rfl
  have call : "(\"" = "(" ++ "\"" := rfl
  have last : "\")" = "\"" ++ ")" := rfl
  unfold emitRustRequest
  rw [front, call, last]
  simp only [requestPieces, textOf_append, textOf_flatMap, header_pieces, body_pieces, auth_pieces,
    textOf_cons, textOf_nil, Piece.text, String.toList_append,
    String.toList_join, List.flatMap_map, List.append_assoc, List.append_nil]

theorem rust_pieces (banner : String) (col : Collection) :
    textOf (rustPieces banner col) = (emitRust banner col).toList := by
  simp only [rustPieces, emitRust, textOf_append, textOf_flatMap, request_pieces, textOf_cons,
    textOf_nil, Piece.text, String.toList_append, String.toList_join, List.flatMap_map,
    List.append_assoc, List.append_nil]

/- What Rust reads of a piece. -/

open Occurrence (replaced replaced_single)
open Rust (normalize)

theorem toList_replace (text pattern new : String) :
    (replace text pattern new).toList = replaced pattern.toList new.toList text.toList :=
  String.toList_ofList

/-- The text with a backslash in front of each quote. -/
def escaped (t : Rust.Text) : Rust.Text := t.flatMap fun c => if c = '"' then ['\\', '"'] else [c]

theorem escaped_counts (t : Rust.Text) :
    (escaped t).length = t.length + t.count '"' ∧ (escaped t).count '"' = t.count '"' ∧
      (escaped t).count '\\' = t.count '\\' + t.count '"' ∧ ('\r' ∈ escaped t ↔ '\r' ∈ t) := by
  induction t with
  | nil => simp [escaped]
  | cons c t ih =>
    obtain ⟨length, quotes, backslashes, returns⟩ := ih
    have step : escaped (c :: t) = (if c = '"' then ['\\', '"'] else [c]) ++ escaped t :=
      List.flatMap_cons
    rw [step]
    by_cases quoted : c = '"'
    · simp [quoted, length, quotes, backslashes, returns]
      omega
    · by_cases backslash : c = '\\'
      · simp [backslash, length, quotes, backslashes, returns]
        omega
      · simp [quoted, backslash, length, quotes, backslashes, returns]
        omega

theorem stringBody_escaped_text {t : Rust.Text} (plain : '\\' ∉ t ∧ '\r' ∉ t) (rest : Rust.Text) :
    Rust.stringBody (escaped t ++ '"' :: rest) = some (t, rest) := by
  induction t with
  | nil => exact Rust.stringBody_quote rest
  | cons c t ih =>
    obtain ⟨backslash, returns⟩ := plain
    rw [List.mem_cons, not_or] at backslash returns
    have inner := ih ⟨backslash.2, returns.2⟩
    by_cases quoted : c = '"'
    · have step : escaped (c :: t) ++ '"' :: rest = '\\' :: '"' :: (escaped t ++ '"' :: rest) := by
        simp [escaped, quoted]
      rw [step, Rust.stringBody_escaped, inner, quoted]
      rfl
    · have step : escaped (c :: t) ++ '"' :: rest = c :: (escaped t ++ '"' :: rest) := by
        simp [escaped, quoted]
      rw [step, Rust.stringBody_plain ⟨quoted, Ne.symm returns.1, Ne.symm backslash.1⟩, inner]
      rfl

theorem escaped_read_iff (t back : Rust.Text) :
    Rust.stringLiteral (normalize ('"' :: (escaped t ++ '"' :: back))) =
      some (t, normalize back) ↔ '\\' ∉ t ∧ '\r' ∉ t := by
  obtain ⟨length, quotes, backslashes, returns⟩ := escaped_counts t
  constructor
  · intro read
    have equal := (Rust.stringLiteral_bound read).2 (by omega)
    rw [returns, quotes, backslashes] at equal
    exact ⟨List.count_eq_zero.mp (by omega), equal.1⟩
  · intro plain
    have whole := Rust.normalize_plain (returns.not.mpr plain.2)
    rw [Rust.normalize_cons (by decide), Rust.normalize_append (by simp), whole,
      Rust.normalize_cons (by decide)]
    exact stringBody_escaped_text plain _

theorem escaped_eq_self {t : Rust.Text} (unquoted : '"' ∉ t) : escaped t = t := by
  have none : ¬ ['"'] <:+: t := by simpa [List.singleton_infix_iff] using unquoted
  rw [escaped, ← replaced_single, Occurrence.replaced_none none]

/-- Without its quotes, a name is read as it is if and only if it has none. -/
theorem dropped_read_iff (t back : Rust.Text) :
    Rust.stringLiteral (normalize ('"' :: (t.filter (· ≠ '"') ++ '"' :: back))) =
      some (t, normalize back) ↔ ('\\' ∉ t ∧ '\r' ∉ t) ∧ '"' ∉ t := by
  have kept : t.filter (· ≠ '"') = t ↔ '"' ∉ t := by
    rw [List.filter_eq_self]
    exact ⟨fun others inside => of_decide_eq_true (others '"' inside) rfl,
      fun unquoted c inside => decide_eq_true fun same => unquoted (same ▸ inside)⟩
  have unescaped (unquoted : '"' ∉ t) :
      Rust.stringLiteral (normalize ('"' :: (t ++ '"' :: back))) = some (t, normalize back) ↔
        '\\' ∉ t ∧ '\r' ∉ t := by
    have read := escaped_read_iff t back
    rwa [escaped_eq_self unquoted] at read
  constructor
  · intro read
    have bound := (Rust.stringLiteral_bound read).1
    have shorter := List.length_filter_le (· ≠ '"') t
    have all : t.filter (· ≠ '"') = t := List.filter_sublist.eq_of_length (by omega)
    rw [all] at read
    exact ⟨(unescaped (kept.mp all)).mp read, kept.mp all⟩
  · rintro ⟨plain, unquoted⟩
    rw [kept.mpr unquoted]
    exact (unescaped unquoted).mpr plain

/-- A body is read as it is if and only if it has neither what ends its literal nor a carriage
return: the backslash that is put between the two denotes itself. -/
theorem raw_read_iff (t back : Rust.Text) :
    Rust.rawStringLiteral (normalize ('r' :: '#' :: '"' ::
        (replaced ['"', '#'] ['"', '\\', '#'] t ++ '"' :: '#' :: back))) =
      some (t, normalize back) ↔ '\r' ∉ t ∧ ¬ ['"', '#'] <:+: t := by
  constructor
  · intro read
    obtain ⟨same, plain⟩ := Rust.rawStringLiteral_whole read
    refine ⟨plain, fun inside => ?_⟩
    have returns : '\r' ∉ replaced ['"', '#'] ['"', '\\', '#'] t := fun put =>
      (Occurrence.mem_of_replaced (List.cons_ne_nil _ _) put).elim (by decide) plain
    have changed := (Rust.normalize_plain returns).symm.trans same
    have equal := Occurrence.eq_of_replaced (List.cons_ne_nil _ _) inside changed
    simp at equal
  · rintro ⟨plain, without⟩
    rw [Occurrence.replaced_none without]
    have whole : normalize ('r' :: '#' :: '"' :: (t ++ '"' :: '#' :: back)) =
        'r' :: '#' :: '"' :: (t ++ '"' :: '#' :: normalize back) := by
      rw [Rust.normalize_cons (by decide), Rust.normalize_cons (by decide),
        Rust.normalize_cons (by decide), Rust.normalize_append (by simp),
        Rust.normalize_plain plain, Rust.normalize_cons (by decide),
        Rust.normalize_cons (by decide)]
    rw [whole]
    exact Rust.rawStringLiteral_plain plain without _

/-- A piece that is read as it is meant, whatever stands behind it. -/
def Piece.Safe : Piece → Prop
  | .code _ => True
  | .comment saved => '\n' ∉ saved.toList
  | .value saved => Plain saved
  | .name saved => PlainName saved
  | .raw saved => '\r' ∉ saved.toList ∧ ¬ ['"', '#'] <:+: saved.toList

theorem Piece.readBefore_iff (p : Piece) (back : Rust.Text) : p.ReadBefore back ↔ p.Safe := by
  cases p with
  | code text => exact Iff.rfl
  | comment saved =>
    have whole : ("// " ++ saved ++ "\n").toList ++ back =
        '/' :: '/' :: (' ' :: saved.toList ++ '\n' :: back) := by
      simp
    simp only [ReadBefore, text, whole, Rust.lineComment_iff, Safe]
    simp
  | value saved =>
    have whole : ("\"" ++ replace saved "\"" "\\\"" ++ "\"").toList ++ back =
        '"' :: (escaped saved.toList ++ '"' :: back) := by
      simp [toList_replace, replaced_single, escaped]
    simp only [ReadBefore, text, whole, escaped_read_iff, Safe, Plain]
  | name saved =>
    have dropped : replaced ['"'] [] saved.toList = saved.toList.filter (· ≠ '"') := by
      rw [replaced_single]
      induction saved.toList with
      | nil => rfl
      | cons c t ih => by_cases quoted : c = '"' <;> simp_all
    have whole : ("\"" ++ replace saved "\"" "" ++ "\"").toList ++ back =
        '"' :: (saved.toList.filter (· ≠ '"') ++ '"' :: back) := by
      simp [toList_replace, dropped]
    simp only [ReadBefore, text, whole, dropped_read_iff, Safe, PlainName, Plain]
  | raw saved =>
    have whole : ("r#\"" ++ replace saved "\"#" "\"\\#" ++ "\"#").toList ++ back =
        'r' :: '#' :: '"' :: (replaced ['"', '#'] ['"', '\\', '#'] saved.toList ++
          '"' :: '#' :: back) := by
      simp [toList_replace]
    simp only [ReadBefore, text, whole, raw_read_iff, Safe]

/- The texts of a request. -/

theorem plain_append (a b : String) : Plain (a ++ b) ↔ Plain a ∧ Plain b := by
  simp only [Plain, String.toList_append, List.mem_append, not_or]
  tauto

theorem rustTarget_plain_iff (r : SavedRequest) :
    Plain (rustTarget r) ↔
      Plain r.target ∧
        (r.auth = .apiKeyQuery → r.authKey ≠ "" → Plain r.authKey ∧ Plain r.authValue) := by
  unfold rustTarget
  split
  · next keyed =>
    have sep : Plain (if '?' ∈ r.target.toList then "&" else "?") := by
      split <;> simp [Plain]
    have equals : Plain "=" := by simp [Plain]
    simp only [plain_append, sep, equals, keyed]
    tauto
  · next free => tauto

theorem headerPieces_safe_iff (name value : String) :
    (∀ p ∈ headerPieces name value, p.Safe) ↔ PlainName name ∧ Plain value := by
  simp [headerPieces, Piece.Safe]

theorem authPieces_safe_iff (r : SavedRequest) :
    (∀ p ∈ authPieces r, p.Safe) ↔
      (r.auth = .bearer ∨ r.auth = .oauth2 → Plain r.authToken) ∧
      (r.auth = .basic → Plain r.authUser ∧ Plain r.authPass) ∧
      (r.auth = .apiKeyHeader → r.authKey ≠ "" → PlainName r.authKey ∧ Plain r.authValue) := by
  have empty : Plain "" := by simp [Plain]
  unfold authPieces
  cases r.auth with
  | none | apiKeyQuery => simp
  | bearer | oauth2 => by_cases token : r.authToken = "" <;> simp [token, Piece.Safe, empty]
  | basic => simp [Piece.Safe]
  | apiKeyHeader =>
    by_cases key : r.authKey = "" <;> simp [key, headerPieces_safe_iff]

theorem bodyPieces_safe_iff (r : SavedRequest) :
    (∀ p ∈ bodyPieces r, p.Safe) ↔
      '\r' ∉ r.body.toList ∧ ¬ ['"', '#'] <:+: r.body.toList := by
  by_cases body : r.body = "" <;> simp [bodyPieces, body, Piece.Safe]

theorem requestPieces_safe_iff (r : SavedRequest) :
    (∀ p ∈ requestPieces r, p.Safe) ↔ RustSafe r := by
  have headers : (∀ p ∈ r.headers.flatMap fun h => headerPieces h.1 h.2, p.Safe) ↔
      ∀ h ∈ r.headers, PlainName h.1 ∧ Plain h.2 := by
    rw [List.forall_mem_flatMap]
    exact forall₂_congr fun h _ => headerPieces_safe_iff h.1 h.2
  have front (call : String) : (∀ p ∈ [Piece.code "    ", .comment r.name, .code call,
      .value (rustTarget r), .code ")"], p.Safe) ↔ '\n' ∉ r.name.toList ∧ Plain (rustTarget r) := by
    simp [Piece.Safe]
  have last : ∀ p ∈ [Piece.code "\n        .send().await?;\n"], p.Safe := by simp [Piece.Safe]
  simp only [requestPieces, List.forall_mem_append, headers, front, authPieces_safe_iff,
    bodyPieces_safe_iff, rustTarget_plain_iff]
  constructor
  · rintro ⟨⟨⟨⟨⟨oneLine, target, query⟩, token, basic, apiKey⟩, headers⟩, body⟩, -⟩
    exact ⟨oneLine, target, query, token, basic, apiKey, headers, body⟩
  · intro safe
    exact ⟨⟨⟨⟨⟨safe.oneLine, safe.target, safe.query⟩, safe.token, safe.basic, safe.apiKey⟩,
      safe.headers⟩, safe.body⟩, last⟩

theorem rustPieces_safe_iff (banner : String) (col : Collection) :
    (∀ p ∈ rustPieces banner col, p.Safe) ↔ ∀ r ∈ col.requests, RustSafe r := by
  rw [rustPieces, List.forall_mem_cons, List.forall_mem_append, List.forall_mem_flatMap]
  simp only [requestPieces_safe_iff]
  constructor
  · exact fun safe => safe.2.1
  · exact fun safe => ⟨trivial, safe, by simp [Piece.Safe]⟩

/-- The literals and comments of the client of a collection are read as they are meant if and only
if all requests are safe. -/
theorem rust_literals_iff (banner : String) (col : Collection) :
    (emitRust banner col).toList = textOf (rustPieces banner col) ∧
      ((∀ front p back, rustPieces banner col = front ++ p :: back → p.ReadBefore (textOf back)) ↔
        ∀ r ∈ col.requests, RustSafe r) := by
  refine ⟨(rust_pieces banner col).symm, ?_⟩
  rw [← rustPieces_safe_iff banner]
  constructor
  · intro read p inside
    obtain ⟨front, back, whole⟩ := List.append_of_mem inside
    exact (p.readBefore_iff _).mp (read front p back whole)
  · intro safe front p back whole
    have inside : p ∈ rustPieces banner col := whole ▸ by simp
    exact (p.readBefore_iff _).mpr (safe p inside)

/-- A request with a token that ends in a backslash. -/
def backslashed : Collection :=
  { name := "demo"
    requests := [{
      name := "ping"
      target := "http://localhost/"
      auth := .bearer
      authToken := "a\\" }] }

/-- The backslash takes the last quote of its literal, which goes on in the code behind it. -/
theorem backslash_unescaped :
    ¬ ∀ front p back, rustPieces "" backslashed = front ++ p :: back →
      p.ReadBefore (textOf back) := by
  intro read
  have token := read ((rustPieces "" backslashed).take 7) (.value "a\\")
    ((rustPieces "" backslashed).drop 8) rfl
  exact absurd ((Piece.readBefore_iff _ _).mp token).1 (by simp)

end BitBeak.Codegen
