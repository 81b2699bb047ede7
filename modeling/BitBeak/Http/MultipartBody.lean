import BitBeak.Http.HeaderOverride
import BitBeak.Lib.Multipart
import BitBeak.Lib.Utf8

/-! The body of a form with several parts, and what is read of it by the grammar of such bodies. -/
namespace BitBeak.Http
open Multipart Wire

/-- The name that is sent with a file. -/
def sentName (crates : HttpCrates) (path : String) : String := (crates.fileName path).getD "file"

/-- The octets that a field brings into the body. -/
def fieldContents (crates : HttpCrates) (f : FormField) : List Bytes :=
  match f.file with
  | some path =>
    [utf8Bytes f.key, utf8Bytes (sentName crates path), (crates.readFile path).getD []]
  | none => [utf8Bytes f.key, utf8Bytes f.value]

/-- The part that a field is. -/
def fieldPart (crates : HttpCrates) (f : FormField) : Part :=
  match f.file with
  | some path => {
      name := utf8Bytes f.key
      fileName := some (utf8Bytes (sentName crates path))
      others := [(ascii "content-type", ascii "application/octet-stream")]
      content := (crates.readFile path).getD [] }
  | none => {
      name := utf8Bytes f.key
      fileName := none
      others := []
      content := utf8Bytes f.value }

/-- No quotation mark, no backslash and no line break is in the text. -/
def Quotable (text : String) : Prop := ∀ c ∈ text.toList, c ∉ ['"', '\\', '\r', '\n']

/- Octets of texts. -/

theorem utf8Bytes_append (s t : String) : utf8Bytes (s ++ t) = utf8Bytes s ++ utf8Bytes t := by
  simp only [utf8Bytes, Utf8.toUTF8_toList, String.toList_append, Utf8.encode_append]

theorem mem_utf8Bytes (c : Char) (low : c.toNat < 128) (text : String) :
    UInt8.ofNat c.toNat ∈ utf8Bytes text ↔ c ∈ text.toList := by
  rw [utf8Bytes, Utf8.toUTF8_toList]
  exact Utf8.mem_encode_iff low

theorem clean_iff (text : String) : Clean (utf8Bytes text) ↔ Quotable text := by
  have octet : ∀ c ∈ ['"', '\\', '\r', '\n'],
      (UInt8.ofNat c.toNat ∈ utf8Bytes text ↔ c ∈ text.toList) := by
    intro c member
    refine mem_utf8Bytes c ?_ text
    revert c
    simp
  constructor
  · intro clean c inside member
    have found := clean _ ((octet c member).mpr inside)
    simp only [List.mem_cons, List.not_mem_nil, or_false] at member
    rcases member with rfl | rfl | rfl | rfl
    · exact found.2.1 rfl
    · exact found.2.2 rfl
    · exact found.1 (by decide)
    · exact found.1 (by decide)
  · intro quotable b inside
    have free : ∀ c ∈ ['"', '\\', '\r', '\n'], b ≠ UInt8.ofNat c.toNat := by
      rintro c member rfl
      exact quotable c ((octet c member).mp inside) member
    refine ⟨fun line => ?_, free '"' (by simp), free '\\' (by simp)⟩
    rcases List.mem_pair.mp line with cr | lf
    · exact free '\r' (by simp) cr
    · exact free '\n' (by simp) lf

theorem utf8Bytes_ascii {text : String} (low : ∀ c ∈ text.toList, c.toNat < 128) :
    utf8Bytes text = ascii text := by
  rw [utf8Bytes, Utf8.toUTF8_toList, Utf8.encode_of_ascii low, ascii]

/- The text of a part. -/

def extraLines (f : FormField) : List Bytes :=
  match f.file with
  | some _ => [ascii "Content-Type: application/octet-stream"]
  | none => []

def partText (crates : HttpCrates) (f : FormField) : Bytes :=
  dispositionLine (fieldPart crates f).name (fieldPart crates f).fileName ++
    (crlf ++ ((extraLines f).flatMap (· ++ crlf) ++ (crlf ++ (fieldPart crates f).content)))

theorem lines_partText (crates : HttpCrates) (f : FormField) :
    Occurrence.split crlf (partText crates f) =
      Occurrence.split crlf (dispositionLine (fieldPart crates f).name (fieldPart crates f).fileName) ++
        (extraLines f ++ [] :: Occurrence.split crlf (fieldPart crates f).content) := by
  have empty : Occurrence.split crlf (crlf ++ (fieldPart crates f).content) =
      [] :: Occurrence.split crlf (fieldPart crates f).content := by
    have first := lines_append [] (fieldPart crates f).content
    rwa [lines_single List.not_mem_nil] at first
  rw [partText, lines_append, extraLines]
  cases f.file with
  | none => exact congrArg _ empty
  | some path =>
    have kind : 0x0d ∉ ascii "Content-Type: application/octet-stream" := by decide
    rw [List.flatMap_singleton, List.append_assoc, lines_append, lines_single kind, empty]

theorem multipartField_text {crates : HttpCrates} {boundary : String} {f : FormField} {text : Bytes}
    (written : multipartField crates boundary f = some text) :
    text = ascii "--" ++ utf8Bytes boundary ++ (crlf ++ (partText crates f ++ crlf)) := by
  have break' : utf8Bytes "\r\n" = crlf := utf8Bytes_ascii (by simp)
  have dashes : utf8Bytes "--" = ascii "--" := utf8Bytes_ascii (by simp)
  have front : utf8Bytes "Content-Disposition: form-data; name=\"" =
      ascii "Content-Disposition: form-data" ++ (ascii "; " ++ (ascii "name" ++ [0x3d, quote])) :=
    utf8Bytes_ascii (by simp)
  rw [multipartField] at written
  cases file : f.file with
  | none =>
    have close : utf8Bytes "\"\r\n\r\n" = quote :: (crlf ++ crlf) := utf8Bytes_ascii (by simp)
    simp only [file, Option.some.injEq] at written
    rw [← written]
    simp [utf8Bytes_append, break', dashes, front, close, partText, fieldPart, extraLines, file,
      dispositionLine, Multipart.written, parameter]
  | some path =>
    have name : utf8Bytes "\"; filename=\"" =
        quote :: (ascii "; " ++ (ascii "filename" ++ [0x3d, quote])) := utf8Bytes_ascii (by simp)
    have close : utf8Bytes "\"\r\nContent-Type: application/octet-stream\r\n\r\n" =
        quote :: (crlf ++ (ascii "Content-Type: application/octet-stream" ++ (crlf ++ crlf))) :=
      utf8Bytes_ascii (by simp)
    simp only [file] at written
    obtain ⟨data, read, rfl⟩ := Option.map_eq_some_iff.mp written
    simp [utf8Bytes_append, break', dashes, front, name, close, partText, fieldPart, extraLines, file,
      dispositionLine, Multipart.written, parameter, sentName, read]

/- The boundary. -/

/-- A boundary that is no part of what stands around the contents. -/
structure Boundary (b : Bytes) : Prop where
  dashes : ascii "----" <:+: b
  mark : quote ∉ b
  cr : 0x0d ∉ b
  lf : 0x0a ∉ b

theorem apart_cons {b s t : Bytes} {c : UInt8} (outside : c ∉ b) (front : ¬ b <:+: s)
    (behind : ¬ b <:+: t) : ¬ b <:+: s ++ c :: t := fun inside =>
  (Occurrence.infix_append_cons outside inside).elim front behind

/-- A field whose contents do not have the boundary is a part without it. -/
theorem Boundary.partText {b : Bytes} (boundary : Boundary b) {crates : HttpCrates} {f : FormField}
    (apart : ∀ c ∈ fieldContents crates f, ¬ b <:+: c) : ¬ b <:+: partText crates f := by
  have literal : ∀ {s : Bytes}, ¬ ascii "----" <:+: s → ¬ b <:+: s := fun none inside =>
    none (boundary.dashes.trans inside)
  have broken : ∀ {s : Bytes}, ¬ b <:+: s → ¬ b <:+: crlf ++ s := fun none =>
    apart_cons (s := []) boundary.cr (literal (by decide))
      (apart_cons (s := []) boundary.lf (literal (by decide)) none)
  cases file : f.file with
  | none =>
    simp only [fieldContents, file, List.forall_mem_cons] at apart
    obtain ⟨key, value, -⟩ := apart
    have shape : Http.partText crates f = ascii "Content-Disposition: form-data; name=" ++
        quote :: (utf8Bytes f.key ++ quote :: (crlf ++ (crlf ++ utf8Bytes f.value))) := by
      simp [Http.partText, dispositionLine, written, parameter, fieldPart, extraLines, file, ascii]
    rw [shape]
    exact apart_cons boundary.mark (literal (by decide))
      (apart_cons boundary.mark key (broken (broken value)))
  | some path =>
    simp only [fieldContents, file, List.forall_mem_cons] at apart
    obtain ⟨key, name, data, -⟩ := apart
    have shape : Http.partText crates f = ascii "Content-Disposition: form-data; name=" ++
        quote :: (utf8Bytes f.key ++ quote :: (ascii "; filename=" ++
          quote :: (utf8Bytes (sentName crates path) ++ quote :: (crlf ++
            (ascii "Content-Type: application/octet-stream" ++
              (crlf ++ (crlf ++ (crates.readFile path).getD []))))))) := by
      simp [Http.partText, dispositionLine, written, parameter, fieldPart, extraLines, file, ascii]
    rw [shape]
    refine apart_cons boundary.mark (literal (by decide)) (apart_cons boundary.mark key
      (apart_cons boundary.mark (literal (by decide)) (apart_cons boundary.mark name (broken ?_))))
    exact apart_cons boundary.cr (literal (by decide))
      (apart_cons (s := []) boundary.lf (literal (by decide)) (broken data))

theorem boundary_made (crates : HttpCrates) :
    Boundary (utf8Bytes ("----bitbeak" ++ toString crates.boundaryId)) := by
  have outside : ∀ c : Char, c.toNat < 128 → c ∉ "----bitbeak".toList → c.isDigit = false →
      UInt8.ofNat c.toNat ∉ utf8Bytes ("----bitbeak" ++ toString crates.boundaryId) := by
    intro c low letters digits member
    rw [mem_utf8Bytes c low, String.toList_append, List.mem_append, toList_toString] at member
    exact member.elim letters (digits_outside digits)
  refine ⟨?_, outside '"' (by decide) (by decide) (by decide),
    outside '\r' (by decide) (by decide) (by decide),
    outside '\n' (by decide) (by decide) (by decide)⟩
  have front : utf8Bytes "----bitbeak" = ascii "----" ++ ascii "bitbeak" :=
    utf8Bytes_ascii (by simp)
  rw [utf8Bytes_append, front, List.append_assoc]
  exact (List.prefix_append _ _).isInfix

/- The body. -/

theorem mapM_written {crates : HttpCrates} {boundary : String} {fields : List FormField}
    {texts : List Bytes} (written : fields.mapM (multipartField crates boundary) = some texts) :
    texts.flatten ++ utf8Bytes ("--" ++ boundary ++ "--\r\n") =
      encapsulated (utf8Bytes boundary) (fields.map (partText crates)) := by
  have close : utf8Bytes "--\r\n" = ascii "--" ++ crlf := utf8Bytes_ascii (by simp)
  have dashes : utf8Bytes "--" = ascii "--" := utf8Bytes_ascii (by simp)
  rw [encapsulated]
  induction fields generalizing texts with
  | nil =>
    cases written
    simp [utf8Bytes_append, close, dashes]
  | cons f fields ih =>
    simp only [List.mapM_cons, Option.bind_eq_bind, Option.bind_eq_some_iff] at written
    obtain ⟨text, here, texts', later, same⟩ := written
    cases same
    rw [List.flatten_cons, List.append_assoc, ih later, multipartField_text here]
    simp

/-- A part is read as its field exactly if the names in it need no quoting. -/
theorem part_partText_iff (crates : HttpCrates) (f : FormField) :
    part (Occurrence.split crlf (partText crates f)) = some (fieldPart crates f) ↔
      Quotable f.key ∧ ∀ path, f.file = some path → Quotable (sentName crates path) := by
  have read : (extraLines f).mapM headerField = some (fieldPart crates f).others := by
    cases file : f.file <;> simp only [extraLines, fieldPart, file] <;> rfl
  have filled : ∀ l ∈ extraLines f, l ≠ [] ∧ l.head?.any blank = false := by
    cases file : f.file <;> simp only [extraLines, file] <;> decide
  have differ : ∀ h ∈ (fieldPart crates f).others, h.1 ≠ ascii "content-disposition" := by
    cases file : f.file <;> simp only [fieldPart, file] <;> decide
  have names := part_iff (fieldPart crates f).name (fieldPart crates f).fileName
    (fieldPart crates f).content (fun l member => (filled l member).1)
    (fun l member => (filled l member).2) read differ
  rw [lines_partText]
  refine names.trans (and_congr ?_ ?_)
  · cases file : f.file <;> simp only [fieldPart, file] <;> exact clean_iff f.key
  · cases file : f.file with
    | none => simp [fieldPart, file]
    | some path => simp [fieldPart, file, clean_iff]

/-- The body of a form is read as its fields exactly if the names in it need no quoting. -/
theorem multipart_body_iff {crates : HttpCrates} {fields : List FormField} {body : Bytes}
    {boundary : String}
    (built : buildFormBody crates .multipart fields =
      some (body, some ("multipart/form-data; boundary=" ++ boundary)))
    (apart : ∀ f ∈ fields, ∀ c ∈ fieldContents crates f, ¬ utf8Bytes boundary <:+: c) :
    parse (utf8Bytes boundary) body = some (fields.map (fieldPart crates)) ↔
      ∀ f ∈ fields, Quotable f.key ∧
        ∀ path, f.file = some path → Quotable (sentName crates path) := by
  obtain ⟨texts, written, same⟩ := Option.map_eq_some_iff.mp built
  simp only [Prod.mk.injEq, Option.some.injEq] at same
  obtain ⟨rfl, made⟩ := same
  have own : "----bitbeak" ++ toString crates.boundaryId = boundary := by
    simpa [← String.toList_inj] using made
  rw [own] at written ⊢
  have valid : Boundary (utf8Bytes boundary) := own ▸ boundary_made crates
  have clear : ∀ t ∈ fields.map (partText crates), ¬ utf8Bytes boundary <:+: t := by
    intro t member
    obtain ⟨f, inside, rfl⟩ := List.mem_map.mp member
    exact valid.partText (apart f inside)
  rw [mapM_written written, parse_encapsulated valid.cr clear, List.mapM_map, mapM_map_iff]
  exact forall₂_congr fun f _ => part_partText_iff crates f

def formCrates : HttpCrates :=
  { headerCrates with
    readFile := fun path => if path = "/tmp/a.bin" then some [0x0d, 0x0a, 0xff] else none
    fileName := fun path => if path = "/tmp/a.bin" then some "a.bin" else none
    boundaryId := 7 }

theorem formCrates_built {fields : List FormField} {texts : List Bytes}
    (written : fields.mapM (multipartField formCrates "----bitbeak7") = some texts) :
    buildFormBody formCrates .multipart fields =
      some (texts.flatten ++ utf8Bytes "------bitbeak7--\r\n",
        some ("multipart/form-data; boundary=" ++ "----bitbeak7")) := by
  have own : "----bitbeak" ++ toString formCrates.boundaryId = "----bitbeak7" := by decide
  rw [buildFormBody, own, written]
  rfl

/-- A value with line breaks and quotation marks, and a file. -/
theorem multipart_body_upload : ∃ body,
    buildFormBody formCrates .multipart
        [{ key := "note", value := "\"a\"\r\nb: c\r\n\r\n" },
          { key := "upload", value := "", file := some "/tmp/a.bin" }] =
      some (body, some ("multipart/form-data; boundary=" ++ "----bitbeak7")) ∧
    parse (utf8Bytes "----bitbeak7") body = some (
      [{ key := "note", value := "\"a\"\r\nb: c\r\n\r\n" },
        { key := "upload", value := "", file := some "/tmp/a.bin" }].map (fieldPart formCrates)) := by
  refine ⟨_, formCrates_built rfl, ?_⟩
  refine (multipart_body_iff (formCrates_built rfl) (by decide +kernel)).mpr ?_
  simp only [List.forall_mem_cons]
  refine ⟨⟨by simp [Quotable], fun path file => by cases file⟩, ⟨by simp [Quotable], ?_⟩, by simp⟩
  rintro path ⟨⟩
  simp [Quotable, sentName, formCrates]

/-- A quotation mark in a key ends the name, and what stands behind it names a file. -/
theorem multipart_body_injects :
    ¬ ∀ (crates : HttpCrates) (fields : List FormField) (body : Bytes) (boundary : String),
      buildFormBody crates .multipart fields =
        some (body, some ("multipart/form-data; boundary=" ++ boundary)) →
      (∀ f ∈ fields, ∀ c ∈ fieldContents crates f, ¬ utf8Bytes boundary <:+: c) →
      parse (utf8Bytes boundary) body = some (fields.map (fieldPart crates)) := by
  intro all
  have same := all formCrates [{ key := "a\"; filename=\"b", value := "c" }] _ _
    (formCrates_built rfl) (by decide +kernel)
  revert same
  decide +kernel

end BitBeak.Http
