import Mathlib.Data.List.Basic

/-! How a shell reads a script of simple commands: blanks and lines, single quotes, a backslash
in front of a character or at the end of a line, comments and here-documents with a quoted
delimiter. Every other syntax leads out of what is described here. The characters of a script
may be marked as data of its author's, and are then to be read as data. -/
namespace Shell

abbrev Text := List Char

/-- The words of a simple command, and the here-document that is its input. -/
structure Command where
  words : List Text
  stdin : Option Text
  deriving DecidableEq, Repr

/-- Where the reader stands: between words, in a word (outside quotes or inside, or behind a
backslash), in a comment, in the operator or the delimiter of a here-document, in the document,
or beyond what is described. -/
inductive Mode where
  | blank
  | word (w : Text)
  | quoted (w : Text)
  | escaped (w : Option Text)
  | comment
  | less
  | delimiter
  | delimiterText (d : Text)
  | delimited (d : Text)
  | document (d line : Text)
  | beyond
  deriving DecidableEq, Repr

/-- The commands so far, the words of the next one, the delimiter of the document that starts at
the next line, and the mode. -/
structure State where
  commands : List Command
  words : List Text
  pending : Option Text
  mode : Mode
  deriving DecidableEq, Repr

inductive Role where
  | control
  | data
  deriving DecidableEq, Repr

def quote : Char := Char.ofNat 0x27
def backslash : Char := Char.ofNat 0x5c

/-- Operators, expansions and quotes of other kinds. -/
def otherSyntax : List Char :=
  ['|', '&', ';', '(', ')', '>', '"', Char.ofNat 0x60, '$', '*', '?', '[', Char.ofNat 0x7b]

def isBlank (c : Char) : Bool := c == ' ' || c == '\t'

/-- Where a tilde stands for a directory: in front of a word, and behind the signs that start a
value in an assignment. -/
def isTildePlace (w : Option Text) : Bool :=
  match w with
  | none => true
  | some w => w.getLast? == some '=' || w.getLast? == some ':'

/-- A character that stands for itself outside quotes, behind the part `w` of a word. -/
def isBare (w : Option Text) (c : Char) : Bool :=
  !isBlank c && !(['\n', backslash, quote, '<'] ++ otherSyntax).contains c &&
    !(c == '#' && w.isNone) && !(c == '~' && isTildePlace w)

/-- A text all of whose characters stand for themselves. -/
def isBareText (w : Option Text) : Text → Bool
  | [] => true
  | c :: rest => isBare w c && isBareText (some (w.getD [] ++ [c])) rest

namespace State

def at_ (s : State) (mode : Mode) : State := { s with mode := mode }

def endWord (s : State) (w : Option Text) : State :=
  match w with
  | some w => { s with words := s.words ++ [w], mode := .blank }
  | none => s.at_ .blank

def endLine (s : State) : State :=
  match s.pending with
  | some d =>
    { commands := s.commands ++ [⟨s.words, some []⟩], words := [], pending := none,
      mode := .document d [] }
  | none =>
    if s.words = [] then s.at_ .blank
    else
      { commands := s.commands ++ [⟨s.words, none⟩], words := [], pending := none, mode := .blank }

/-- A line of a document goes to the command in front of it. -/
def feed (s : State) (line : Text) : State :=
  match s.commands.getLast? with
  | some command =>
    { s with commands := s.commands.dropLast ++
        [{ command with stdin := some (command.stdin.getD [] ++ line) }] }
  | none => s

end State

/-- What a character outside quotes does, behind the part `w` of a word. -/
def stepBare (s : State) (w : Option Text) (c : Char) : Role × State :=
  if isBare w c then (.data, s.at_ (.word (w.getD [] ++ [c])))
  else if isBlank c then (.control, s.endWord w)
  else if c = '\n' then (.control, (s.endWord w).endLine)
  else if c = backslash then (.control, s.at_ (.escaped w))
  else if c = quote then (.control, s.at_ (.quoted (w.getD [])))
  else if c = '#' ∧ w = none then (.control, s.at_ .comment)
  else if c = '<' ∧ w = none ∧ s.pending = none then (.control, s.at_ .less)
  else (.control, s.at_ .beyond)

/-- Between words, or in one. -/
def bareMode : Option Text → Mode
  | none => .blank
  | some w => .word w

def step (s : State) (c : Char) : Role × State :=
  match s.mode with
  | .blank => stepBare s none c
  | .word w => stepBare s (some w) c
  | .quoted w =>
    if c = quote then (.control, s.at_ (.word w)) else (.data, s.at_ (.quoted (w ++ [c])))
  | .escaped w =>
    if c = '\n' then (.control, s.at_ (bareMode w))
    else (.data, s.at_ (.word (w.getD [] ++ [c])))
  | .comment => if c = '\n' then (.control, s.endLine) else (.data, s)
  | .less => (.control, s.at_ (if c = '<' then .delimiter else .beyond))
  | .delimiter => (.control, s.at_ (if c = quote then .delimiterText [] else .beyond))
  | .delimiterText d =>
    if c = quote then (.control, s.at_ (.delimited d))
    else (.data, s.at_ (.delimiterText (d ++ [c])))
  | .delimited d =>
    if isBlank c ∨ c = '\n' then stepBare { s with pending := some d, mode := .blank } none c
    else (.control, s.at_ .beyond)
  | .document d line =>
    if c = '\n' then
      if line = d then (.control, s.at_ .blank)
      else (.data, (s.feed (line ++ ['\n'])).at_ (.document d []))
    else (.data, s.at_ (.document d (line ++ [c])))
  | .beyond => (.control, s)

/-- A script whose characters are marked where they are the author's data. -/
abbrev Script := List (Char × Bool)

def tagged (mark : Bool) (t : Text) : Script := t.map fun c => (c, mark)
def fixed (t : Text) : Script := tagged false t
def marked (t : Text) : Script := tagged true t

def Script.text (script : Script) : Text := script.map Prod.fst

/-- The state behind a script, unless a marked character is no data. -/
def lex (s : State) : Script → Option State
  | [] => some s
  | (c, mark) :: rest =>
    if mark = true ∧ (step s c).1 = .control then none else lex (step s c).2 rest

/-- Between two lines, behind commands that are complete. -/
def between (commands : List Command) : State := ⟨commands, [], none, .blank⟩

/-- The commands of a script. Its end ends a line. -/
def commandsOf (script : Script) : Option (List Command) :=
  (lex (between []) script).map fun s => (step s '\n').2.commands

@[simp] theorem text_append (a b : Script) : (a ++ b : Script).text = a.text ++ b.text :=
  List.map_append

@[simp] theorem text_tagged (mark : Bool) (t : Text) : (tagged mark t).text = t := by
  simp [tagged, Script.text, Function.comp_def]

@[simp] theorem text_fixed (t : Text) : (fixed t).text = t := text_tagged false t

@[simp] theorem text_marked (t : Text) : (marked t).text = t := text_tagged true t

theorem lex_append (s : State) (a b : Script) :
    lex s (a ++ b) = (lex s a).bind fun s => lex s b := by
  induction a generalizing s with
  | nil => rfl
  | cons p rest ih =>
    obtain ⟨c, mark⟩ := p
    rw [List.cons_append, lex, lex]
    split
    · rfl
    · exact ih _

theorem lex_append_of {s s' : State} {a : Script} (h : lex s a = some s') (b : Script) :
    lex s (a ++ b) = lex s' b := by rw [lex_append, h, Option.bind_some]

/- Words, quotes and comments. -/
section pieces
variable (cs : List Command) (ws : List Text) (p : Option Text)

theorem step_bareMode (w : Option Text) (c : Char) :
    step ⟨cs, ws, p, bareMode w⟩ c = stepBare ⟨cs, ws, p, bareMode w⟩ w c := by
  cases w <;> rfl

theorem stepBare_role (s : State) (w : Option Text) (c : Char) :
    (stepBare s w c).1 = if isBare w c then .data else .control := by
  unfold stepBare
  split
  · rfl
  · repeat' split
    all_goals rfl

theorem lex_bare (mark : Bool) (t : Text) (w : Option Text) (bare : isBareText w t = true) :
    lex ⟨cs, ws, p, bareMode w⟩ (tagged mark t) =
      some ⟨cs, ws, p, bareMode (if t = [] then w else some (w.getD [] ++ t))⟩ := by
  induction t generalizing w with
  | nil => rfl
  | cons c rest ih =>
    simp only [isBareText, Bool.and_eq_true] at bare
    obtain ⟨hc, hrest⟩ := bare
    have hs : step ⟨cs, ws, p, bareMode w⟩ c =
        (.data, ⟨cs, ws, p, bareMode (some (w.getD [] ++ [c]))⟩) := by
      rw [step_bareMode, stepBare, if_pos hc]
      rfl
    rw [tagged, List.map_cons, lex, hs, if_neg (by simp)]
    apply (ih _ hrest).trans
    by_cases hnil : rest = [] <;> simp [hnil]

/-- Saved text outside quotes is read where all of it stands for itself. -/
theorem lex_bare_marked (t : Text) (w : Option Text) :
    lex ⟨cs, ws, p, bareMode w⟩ (marked t) =
      if isBareText w t then
        some ⟨cs, ws, p, bareMode (if t = [] then w else some (w.getD [] ++ t))⟩
      else none := by
  split
  case isTrue bare => exact lex_bare cs ws p true t w bare
  case isFalse bare =>
    induction t generalizing w with
    | nil => simp [isBareText] at bare
    | cons c rest ih =>
      rw [marked, tagged, List.map_cons, lex, step_bareMode]
      by_cases hc : isBare w c = true
      · have hrest : ¬isBareText (some (w.getD [] ++ [c])) rest = true := by
          simpa [isBareText, hc] using bare
        rw [stepBare, if_pos hc, if_neg (by simp)]
        exact ih _ hrest
      · rw [if_pos ⟨rfl, by rw [stepBare_role, if_neg hc]⟩]

theorem lex_quoted (content : Script) (w : Text) (outside : quote ∉ content.text) :
    lex ⟨cs, ws, p, .quoted w⟩ content = some ⟨cs, ws, p, .quoted (w ++ content.text)⟩ := by
  induction content generalizing w with
  | nil => simp [lex, Script.text]
  | cons q rest ih =>
    obtain ⟨c, mark⟩ := q
    simp only [Script.text, List.map_cons, List.mem_cons, not_or] at outside
    have hs : step ⟨cs, ws, p, .quoted w⟩ c = (.data, ⟨cs, ws, p, .quoted (w ++ [c])⟩) := by
      simp [step, Ne.symm outside.1, State.at_]
    rw [lex, hs, if_neg (by simp), ih _ outside.2]
    simp [Script.text]

/-- Text in a comment is read where it stays on the line. -/
theorem lex_comment (t : Text) :
    lex ⟨cs, ws, p, .comment⟩ (marked t) =
      if '\n' ∈ t then none else some ⟨cs, ws, p, .comment⟩ := by
  induction t with
  | nil => rfl
  | cons c rest ih =>
    rw [marked, tagged, List.map_cons, lex]
    by_cases hc : c = '\n'
    · simp [hc, step]
    · have hs : step ⟨cs, ws, p, .comment⟩ c = (.data, ⟨cs, ws, p, .comment⟩) := by
        simp [step, hc]
      rw [hs, if_neg (by simp)]
      apply ih.trans
      simp [Ne.symm hc]

end pieces

/- A word in quotes, on the line of its command or on the next. -/
section arguments
variable (cs : List Command) (ws : List Text)

/-- The end of a line behind a backslash, which is none, and the blanks at the start of the
next. -/
def continued : Script := fixed " \\\n  ".toList

theorem lex_continued (w : Option Text) :
    lex ⟨cs, ws, none, bareMode w⟩ continued = some ⟨cs, ws ++ w.toList, none, .blank⟩ := by
  cases w <;> simp [continued, fixed, tagged, lex, step, stepBare, bareMode, isBare, isBlank,
    State.endWord, State.at_, backslash, quote, otherSyntax]

/-- A word and the blank behind it. -/
theorem lex_word (mark : Bool) (t : Text) (bare : isBareText none t = true) (hne : t ≠ []) :
    lex ⟨cs, ws, none, .blank⟩ (tagged mark t ++ fixed [' ']) =
      some ⟨cs, ws ++ [t], none, .blank⟩ := by
  have hw : lex ⟨cs, ws, none, .blank⟩ (tagged mark t) = some ⟨cs, ws, none, .word t⟩ := by
    simpa [hne, bareMode] using lex_bare cs ws none mark t none bare
  rw [lex_append_of hw]
  rfl

def inQuotes (content : Script) : Script := fixed [quote] ++ content ++ fixed [quote]

theorem lex_inQuotes (content : Script) (outside : quote ∉ content.text) :
    lex ⟨cs, ws, none, .blank⟩ (inQuotes content) = some ⟨cs, ws, none, .word content.text⟩ := by
  have opened : lex ⟨cs, ws, none, .blank⟩ (fixed [quote]) = some ⟨cs, ws, none, .quoted []⟩ := rfl
  have inside := lex_quoted cs ws none content [] outside
  rw [inQuotes, List.append_assoc, lex_append_of opened, lex_append_of inside]
  rfl

theorem lex_endOfLine (w : Text) :
    lex ⟨cs, ws, none, .word w⟩ (fixed ['\n']) = some (between (cs ++ [⟨ws ++ [w], none⟩])) := by
  have hs : step ⟨cs, ws, none, .word w⟩ '\n' =
      (.control, State.endLine ⟨cs, ws ++ [w], none, .blank⟩) := rfl
  simp [fixed, tagged, lex, hs, State.endLine, between]

end arguments

/- A command once read stays, whatever follows it. -/

/-- The words of the commands so far. -/
def State.ran (s : State) : List (List Text) := s.commands.map Command.words

@[simp] theorem ran_at (s : State) (mode : Mode) : (s.at_ mode).ran = s.ran := rfl

@[simp] theorem ran_endWord (s : State) (w : Option Text) : (s.endWord w).ran = s.ran := by
  cases w <;> rfl

theorem ran_endLine (s : State) : s.ran <+: s.endLine.ran := by
  unfold State.endLine
  split
  · simp [State.ran]
  · split
    · simp
    · simp [State.ran]

@[simp] theorem ran_feed (s : State) (line : Text) : (s.feed line).ran = s.ran := by
  unfold State.feed
  split
  case h_1 command last =>
    have hs : s.commands = s.commands.dropLast ++ [command] :=
      (List.dropLast_append_getLast? command last).symm
    calc _ = s.commands.dropLast.map Command.words ++ [command.words] := by simp [State.ran]
      _ = (s.commands.dropLast ++ [command]).map Command.words := by simp
      _ = s.ran := by rw [← hs, State.ran]
  case h_2 => rfl

theorem ran_stepBare (s : State) (w : Option Text) (c : Char) :
    s.ran <+: (stepBare s w c).2.ran := by
  unfold stepBare
  repeat' split
  case isFalse.isFalse.isTrue => simpa using ran_endLine (s.endWord w)
  all_goals simp

theorem ran_step (s : State) (c : Char) : s.ran <+: (step s c).2.ran := by
  unfold step
  cases s.mode with
  | blank => exact ran_stepBare s none c
  | word w => exact ran_stepBare s (some w) c
  | quoted w => dsimp only; split <;> simp
  | escaped w => dsimp only; split <;> simp
  | comment =>
    dsimp only
    split
    · exact ran_endLine s
    · exact List.prefix_rfl
  | less => simp
  | delimiter => simp
  | delimiterText d => dsimp only; split <;> simp
  | delimited d =>
    dsimp only
    split
    · exact ran_stepBare { s with pending := some d, mode := .blank } none c
    · simp
  | document d line =>
    dsimp only
    split
    · split <;> simp
    · simp
  | beyond => exact List.prefix_rfl

theorem ran_lex {s s' : State} {script : Script} (h : lex s script = some s') :
    s.ran <+: s'.ran := by
  induction script generalizing s with
  | nil => exact Option.some.inj h ▸ List.prefix_rfl
  | cons q rest ih =>
    obtain ⟨c, mark⟩ := q
    rw [lex] at h
    split at h
    · cases h
    · exact (ran_step s c).trans (ih h)

/-- A script lex behind `s` whose commands come to be `commands` keeps those of `s`. -/
theorem ran_commands {s : State} {script : Script} {commands : List Command}
    (h : (lex s script).map (fun s => (step s '\n').2.commands) = some commands) :
    s.ran <+: commands.map Command.words := by
  obtain ⟨s', hlex, rfl⟩ := Option.map_eq_some_iff.mp h
  exact (ran_lex hlex).trans (ran_step s' '\n')

end Shell
