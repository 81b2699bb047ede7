import BitBeak.Dissect.HttpObjects

/-! The text areas of the panes: a text put in and taken out again. What a text area does with its
lines besides keeping them is left out. -/
namespace BitBeak

structure TextArea where
  lines : List String
  deriving DecidableEq, Repr

namespace TextArea

def singleLine (initial : String) : TextArea := ⟨[initial]⟩

def multiLine (initial : String) : TextArea :=
  ⟨if initial = "" then [""] else (textLines initial.toList).map String.ofList⟩

def textOf (ta : TextArea) : String := "\n".intercalate ta.lines

def setText (text : String) : TextArea :=
  if '\n' ∈ text.toList then multiLine text else singleLine text

end TextArea

/-- A text that an editor gives back as it got it: no carriage return in front of a line break,
and no line break at its end. -/
def EditorText (text : String) : Prop := LineText.Settled '\n' '\r' text.toList

theorem textOf_multiLine {text : String} (nonempty : text ≠ "") :
    (TextArea.multiLine text).textOf.toList =
      LineText.joined '\n' (LineText.lines '\n' '\r' text.toList) := by
  rw [TextArea.multiLine, if_neg nonempty, TextArea.textOf, String.toList_intercalate,
    List.map_map, textLines_eq]
  simp [LineText.joined, Function.comp_def]

theorem textOf_singleLine (text : String) : (TextArea.singleLine text).textOf = text := by
  simp [TextArea.singleLine, TextArea.textOf]

theorem textOf_setText (text : String) :
    (TextArea.setText text).textOf = text ↔ EditorText text := by
  rw [TextArea.setText]
  split
  · next breaks =>
    have nonempty : text ≠ "" := by
      rintro rfl
      simp at breaks
    rw [← String.toList_inj, textOf_multiLine nonempty, LineText.joined_lines (by decide), EditorText]
  · next none => exact iff_of_true (textOf_singleLine text) (LineText.settled_of_none none)

/-- An editor adds no character. -/
theorem mem_textOf_setText {text : String} {c : Char}
    (member : c ∈ (TextArea.setText text).textOf.toList) : c ∈ text.toList := by
  rw [TextArea.setText] at member
  split at member
  · next breaks =>
    have nonempty : text ≠ "" := by
      rintro rfl
      simp at breaks
    rw [textOf_multiLine nonempty] at member
    exact LineText.mem_joined_lines text.toList member
  · rwa [textOf_singleLine] at member

end BitBeak
