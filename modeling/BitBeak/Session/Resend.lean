import BitBeak.Composer.RoundTrip
import BitBeak.Session.Stream

/-! A logged frame put into the composer and sent from there. The composer keeps lines, and its
text is joined from them. -/
namespace BitBeak
open BoolText ByteText Utf8
open Wire hiding slice

/- What the composer shows. -/

theorem unescapes_plain {t : Text} (plain : '\\' ∉ t) : Unescapes t (encode t) := by
  refine (unescapes_encode_iff t).mpr fun front behind whole => ?_
  exact absurd (whole ▸ List.mem_append_right _ List.mem_cons_self) plain

/-- A text without backslashes is decoded to its own octets. -/
theorem decode_plain {text : String} (plain : '\\' ∉ text.toList) :
    decodePayload text .utf8 = given (.ok (encode text.toList)) :=
  (decodeUtf8Escapes_iff text _).mpr (unescapes_plain plain)

theorem encodeForEdit_text {t : Text} (printable : t.all isEditable = true) :
    encodeForEdit (encode t) .utf8 = String.ofList t := by
  simp only [encodeForEdit, fromUtf8_encode, String.toList_ofList, if_pos printable]

/-- The hexadecimal form is one line. -/
theorem hex_unbroken (payload : Bytes) : '\n' ∉ (encodeForEdit payload .hex).toList := by
  have digit : ∀ n < 16, '\n' ≠ Nat.digitChar n := by decide
  have pair : ∀ b : UInt8, '\n' ∉ digitPair b := by
    intro b
    have bound := b.toNat_lt
    simp [digitPair, digit (b.toNat / 16) (by omega), digit (b.toNat % 16) (by omega)]
  rw [hex_toList]
  induction payload with
  | nil => exact List.not_mem_nil
  | cons b payload ih =>
    cases payload with
    | nil => simpa using pair b
    | cons next payload =>
      simp only [List.map_cons] at ih
      simpa [List.intercalate_cons_cons, pair b] using ih

/- Loading and sending. -/

section
variable {s : StreamSession} {f : Frame}

/-- Loading a frame and sending the composer decodes what the editor gives back. -/
theorem resend_eq (selected : s.selectedFrame = some f) {decoded : Bytes}
    (decodes : decodePayload (TextArea.setText (encodeForEdit f.payload s.composerMode)).textOf
      s.composerMode = given (.ok decoded)) :
    s.loadSelectedToComposer.sendComposer =
      .ok (s.loadSelectedToComposer, some (StreamSession.sendBytes decoded)) := by
  have loaded : s.loadSelectedToComposer =
      { s with
        composer := .setText (encodeForEdit f.payload s.composerMode)
        focus := .composer } := by
    simp only [StreamSession.loadSelectedToComposer, selected]
  rw [loaded]
  simp only [StreamSession.sendComposer, StreamSession.composerText, decodes]
  rfl

/-- A payload of printable text without backslashes is handed to the transport as it is logged, in
hexadecimal mode always, in text mode exactly if no line of it ends in a carriage return and it does
not end in a line break. -/
theorem resend_exact_iff {t : Text} (selected : s.selectedFrame = some f)
    (text : f.payload = encode t) (printable : t.all isEditable = true) (plain : '\\' ∉ t) :
    (∃ after, s.loadSelectedToComposer.sendComposer =
        .ok (after, some (StreamSession.sendBytes f.payload))) ↔
      s.composerMode = .hex ∨ EditorText (String.ofList t) := by
  cases mode : s.composerMode with
  | hex =>
    refine iff_of_true ⟨_, resend_eq selected ?_⟩ (.inl rfl)
    have kept := (textOf_setText (encodeForEdit f.payload .hex)).mpr
      (LineText.settled_of_none (hex_unbroken f.payload))
    rw [mode, kept, decodePayload, parseHexBytes_encoded]
  | utf8 =>
    have shown : encodeForEdit f.payload s.composerMode = String.ofList t := by
      rw [mode, text, encodeForEdit_text printable]
    have clear : '\\' ∉ (TextArea.setText (String.ofList t)).textOf.toList := by
      intro member
      have inside := mem_textOf_setText member
      rw [String.toList_ofList] at inside
      exact plain inside
    have decodes : decodePayload (TextArea.setText (encodeForEdit f.payload s.composerMode)).textOf
        s.composerMode = given (.ok (encode (TextArea.setText (String.ofList t)).textOf.toList)) := by
      rw [shown, mode, decode_plain clear]
    have sent := resend_eq selected decodes
    rw [sent, ← textOf_setText]
    constructor
    · rintro ⟨after, same⟩
      have command := (Prod.mk.inj (Except.ok.inj same)).2
      have octets := (IoCommand.send.inj (Option.some.inj command)).1
      have kept := encode_injective (octets.trans text)
      exact .inr (String.toList_inj.mp (kept.trans String.toList_ofList.symm))
    · rintro (impossible | kept)
      · cases impossible
      · rw [kept, String.toList_ofList, ← text]
        exact ⟨_, rfl⟩

end

/-- A session that has logged one frame, and selected it. -/
def loggedSession (payload : Bytes) : StreamSession :=
  (StreamSession.start (.tcp "peer" 7) {} 10).onIo (.frame .inward payload none)

theorem resend_two_lines :
    (∃ after, (loggedSession [0x61, 0x0a, 0x62]).loadSelectedToComposer.sendComposer =
        .ok (after, some (StreamSession.sendBytes [0x61, 0x0a, 0x62]))) ↔
      ComposerMode.utf8 = .hex ∨ EditorText (String.ofList ['a', '\n', 'b']) :=
  resend_exact_iff (s := loggedSession [0x61, 0x0a, 0x62])
    (f := ⟨1, .inward, [0x61, 0x0a, 0x62], none, none⟩) rfl rfl (by decide) (by decide)

/-- A line break at the end is lost. -/
theorem resend_loses_break :
    ((loggedSession [0x61, 0x0a]).loadSelectedToComposer.sendComposer.map Prod.snd) =
      .ok (some (StreamSession.sendBytes [0x61])) := by
  rfl

end BitBeak
