import BitBeak.Ui.Events

/-! What a run of events may do: when the program ends, when a session is closed, and which. -/
namespace BitBeak.Ui
open BitBeak Wire WorkspaceUi

section
variable {Session : Type} (view : SessionView Session) (ws : WorkspaceUi Session)

theorem ensureHttpAndLoad_grows (made : Session) (load : Session → Session) :
    ws.sessions.length ≤ (ws.ensureHttpAndLoad view made load).sessions.length ∧
      (ws.ensureHttpAndLoad view made load).overlay = ws.overlay := by
  have updated : ∀ (ws : WorkspaceUi Session), ws.sessions.length ≤
      (if ws.activeSession.any view.isHttp then
        { ws with toWorkspace := ws.update ws.active load } else ws).sessions.length ∧
      (if ws.activeSession.any view.isHttp then
        { ws with toWorkspace := ws.update ws.active load } else ws).overlay = ws.overlay := by
    intro ws
    split
    · exact ⟨Nat.le_of_eq (List.length_modify ..).symm, rfl⟩
    · exact ⟨Nat.le_refl _, rfl⟩
  unfold WorkspaceUi.ensureHttpAndLoad
  dsimp only
  by_cases http : ws.activeSession.any view.isHttp = true
  · rw [if_pos http]
    exact updated ws
  · rw [if_neg http]
    obtain ⟨longer, same⟩ := updated { ws with toWorkspace := ws.openTab made }
    refine ⟨Nat.le_trans ?_ longer, same⟩
    rw [Workspace.openTab_sessions, List.length_append]
    exact Nat.le_add_right _ _

theorem sniffFromHttp_grows (iface : String) (made : Session) (start : Session → Session) :
    ws.sessions.length ≤ (ws.sniffFromHttp view iface made start).sessions.length ∧
      ((ws.sniffFromHttp view iface made start).overlay = ws.overlay ∨
        (ws.sniffFromHttp view iface made start).overlay = .none) := by
  unfold WorkspaceUi.sniffFromHttp
  split
  · split
    · exact ⟨Nat.le_of_eq (List.length_modify ..).symm, .inl rfl⟩
    · refine ⟨?_, .inr rfl⟩
      simp [WorkspaceUi.openSession]
  · exact ⟨Nat.le_refl _, .inl rfl⟩

end

namespace App

variable {Session : Type} {view : SessionView Session} {typing : Session → Bool}
  {screen : Screen Session} {app next : App Session}

/-- Nothing is closed, and the dialog that asks before closing is not opened; where it stays open
the same session stays in front. -/
structure Harmless (before after : App Session) : Prop where
  tall : 11 ≤ before.area.height → 11 ≤ after.area.height
  focused : Focused before.toWorkspace → Focused after.toWorkspace
  longer : before.sessions.length ≤ after.sessions.length
  asks : after.overlay = .closeConfirm →
    before.overlay = .closeConfirm ∧ after.active = before.active

namespace Harmless

theorem refl (app : App Session) : Harmless app app where
  tall := id
  focused := id
  longer := Nat.le_refl _
  asks open' := ⟨open', rfl⟩

theorem trans {a b c : App Session} (first : Harmless a b) (second : Harmless b c) :
    Harmless a c where
  tall high := second.tall (first.tall high)
  focused focus := second.focused (first.focused focus)
  longer := Nat.le_trans first.longer second.longer
  asks open' :=
    have middle := second.asks open'
    have early := first.asks middle.1
    ⟨early.1, middle.2.trans early.2⟩

theorem showing {overlay : Overlay} (other : overlay ≠ .closeConfirm) (app : App Session) :
    Harmless app (app.showing overlay) where
  tall := id
  focused := id
  longer := Nat.le_refl _
  asks open' := absurd open' other

theorem askQuit (app : App Session) : Harmless app app.askQuit where
  tall := id
  focused := id
  longer := Nat.le_refl _
  asks open' := nomatch open'

theorem inFront (app : App Session) (f : Session → Session) : Harmless app (app.inFront f) where
  tall := id
  focused focus := focused_update focus _ f
  longer := Nat.le_of_eq (by simp [App.inFront, App.lift, Workspace.update])
  asks open' := ⟨open', rfl⟩

/-- Another session in front, while the dialog is not open. -/
theorem select {ws : Workspace Session} (closed : app.overlay ≠ .closeConfirm)
    (same : ws.sessions = app.sessions) (focused : Focused app.toWorkspace → Focused ws) :
    Harmless app (app.lift { app.toWorkspaceUi with toWorkspace := ws }) where
  tall := id
  focused := focused
  longer := Nat.le_of_eq (congrArg List.length same.symm)
  asks open' := absurd open' closed

theorem openUri (app : App Session) (answers : Answers Session) :
    Harmless app (app.openUri answers) := by
  unfold App.openUri
  split
  · exact {
      tall := id
      focused := fun _ => focused_open _ _
      longer := by simp [App.lift, WorkspaceUi.openSession, Workspace.openTab]
      asks := fun open' => nomatch open' }
  · exact refl app

/-- A session at the end of the row, or the row as it is, with something done to it. -/
theorem ensured (closed : app.overlay ≠ .closeConfirm) (made : Session)
    (load : Session → Session) :
    Harmless app (app.lift (app.ensureHttpAndLoad view made load)) where
  tall := id
  focused focus := by
    obtain ⟨_, same, after, _⟩ := ensureHttpAndLoad_safe view focus made load
    cases same
    exact after
  longer := (ensureHttpAndLoad_grows view app.toWorkspaceUi made load).1
  asks open' := absurd
    ((ensureHttpAndLoad_grows view app.toWorkspaceUi made load).2.symm.trans open') closed

theorem replayed (closed : app.overlay ≠ .closeConfirm) (made : Session)
    (load : Session → Session) :
    Harmless app (app.lift (app.replayFollowIntoHttp view made load)) := by
  have loaded : Harmless app (app.lift (app.ensureHttpAndLoad view made load)) :=
    ensured closed made load
  unfold WorkspaceUi.replayFollowIntoHttp
  dsimp only
  split
  · exact loaded.trans (showing (by decide) _)
  · exact loaded

theorem sniffed (closed : app.overlay ≠ .closeConfirm) (iface : String) (made : Session)
    (start : Session → Session) :
    Harmless app (app.lift (app.sniffFromHttp view iface made start)) where
  tall := id
  focused focus := by
    obtain ⟨_, same, after, _⟩ := sniffFromHttp_safe view focus iface made start
    cases same
    exact after
  longer := (sniffFromHttp_grows view app.toWorkspaceUi iface made start).1
  asks open' := by
    rcases (sniffFromHttp_grows view app.toWorkspaceUi iface made start).2 with same | none
    · exact absurd (same.symm.trans open') closed
    · cases none.symm.trans open'

theorem other (app : App Session) (cursor : Nat) (requests : Bool) :
    Harmless app { app with
      newSessionCursor := cursor
      collectionShowRequests := requests } where
  tall := id
  focused := id
  longer := Nat.le_refl _
  asks open' := ⟨open', rfl⟩

theorem prevTab (closed : app.overlay ≠ .closeConfirm) :
    Harmless app (app.lift { app.toWorkspaceUi with toWorkspace := app.prevTab }) :=
  select closed (Workspace.prevTab_sessions _) focused_prevTab

theorem nextTab (closed : app.overlay ≠ .closeConfirm) :
    Harmless app (app.lift { app.toWorkspaceUi with toWorkspace := app.nextTab }) :=
  select closed (Workspace.nextTab_sessions _) focused_nextTab

theorem closesOn (keys : List KeyCode) (app : App Session) (key : KeyEvent) :
    Harmless app (App.closesOn keys app key) := by
  unfold App.closesOn
  split
  · exact showing (by decide) app
  · exact refl app

theorem changeAndClose (app : App Session) (f : Session → Session) :
    Harmless app ((app.inFront f).showing .none) :=
  (inFront app f).trans (showing (by decide) _)

/- The keys of the overlays. -/

theorem handleFilterKeys (key : KeyEvent) (answers : Answers Session) :
    Harmless app (app.handleFilterKeys key answers) := by
  unfold App.handleFilterKeys
  split
  · exact showing (by decide) app
  · exact changeAndClose app _
  · exact refl app

theorem handleNewSessionKeys (key : KeyEvent) : Harmless app (app.handleNewSessionKeys key) := by
  unfold App.handleNewSessionKeys
  split
  · exact showing (by decide) app
  · exact other app _ _
  · exact other app _ _
  · split
    · exact other app _ _
    · exact refl app
  · split
    · exact other app _ _
    · exact refl app
  · exact showing (by simp) app
  · exact refl app

theorem handleUriKeys (key : KeyEvent) (answers : Answers Session) :
    Harmless app (app.handleUriKeys key answers) := by
  unfold App.handleUriKeys
  split
  · exact showing (by decide) app
  · exact openUri app answers
  · exact refl app

theorem handleEditOverlayKeys (key : KeyEvent) (answers : Answers Session) :
    Harmless app (app.handleEditOverlayKeys key answers) := by
  unfold App.handleEditOverlayKeys
  split
  · exact showing (by decide) app
  · split
    · exact changeAndClose app _
    · exact refl app
  · exact refl app

theorem ensureHttp (closed : app.overlay ≠ .closeConfirm) (answers : Answers Session) :
    Harmless app (app.ensureHttp view answers) := by
  unfold App.ensureHttp
  split
  · exact ensured closed _ _
  · exact refl app

theorem handleCollectionsKeys (closed : app.overlay ≠ .closeConfirm) (key : KeyEvent)
    (answers : Answers Session) : Harmless app (app.handleCollectionsKeys view key answers) := by
  unfold App.handleCollectionsKeys
  split
  · split
    · exact other app _ _
    · exact showing (by decide) app
  · split
    · exact other app _ _
    · exact refl app
  · split
    · exact other app _ _
    · exact refl app
  · split
    · split
      · exact (ensureHttp closed answers).trans (showing (by decide) _)
      · exact refl app
    · split
      · exact other app _ _
      · exact refl app
  · exact refl app

theorem runPalette (closed : app.overlay ≠ .closeConfirm) (answers : Answers Session)
    (command : PaletteCommand) : Harmless app (app.runPalette view answers command) := by
  have onCapture : ∀ overlay, overlay ≠ .closeConfirm →
      Harmless app (if app.isKind view .capture then app.showing overlay else app) := by
    intro overlay other
    split
    · exact showing other app
    · exact refl app
  have followed : Harmless app (if app.isKind view .capture then
      if answers.found then (app.inFront answers.change).showing .followStream else app
      else app) := by
    split
    · split
      · exact (inFront app _).trans (showing (by decide) _)
      · exact refl app
    · exact refl app
  have onHttp : ∀ overlay, overlay ≠ .closeConfirm →
      Harmless app (if app.isKind view .http then app.showing overlay else app) := by
    intro overlay other
    split
    · exact showing other app
    · exact refl app
  cases command with
  | help => exact showing (by decide) app
  | quit => exact askQuit app
  | openUri | proxy | capture | openFile | rpcapCapture => exact openUri app answers
  | composer =>
    dsimp only [App.runPalette]
    split
    · exact openUri app answers
    · exact refl app
  | followTcp | followUdp | followHttp => exact followed
  | sniff iface =>
    dsimp only [App.runPalette]
    split
    · split
      · exact sniffed closed _ _ _
      · exact refl app
    · exact refl app
  | conversations | endpoints | hierarchy | expert | keylog => exact onCapture _ (by decide)
  | replayHttp =>
    dsimp only [App.runPalette]
    split
    · exact replayed closed _ _
    · exact refl app
  | run name =>
    dsimp only [App.runPalette]
    split
    · exact ensureHttp closed answers
    · exact refl app
  | fuzz => exact showing (by decide) app
  | preScript | tests => exact onHttp _ (by decide)
  | importPath path =>
    dsimp only [App.runPalette]
    split
    · exact other app _ _
    · exact refl app
  | _ => exact inFront app _

theorem handlePaletteKeys (key : KeyEvent) (answers : Answers Session) :
    Harmless app (app.handlePaletteKeys view key answers) := by
  unfold App.handlePaletteKeys
  split
  · exact showing (by decide) app
  · exact (showing (by decide) app).trans (runPalette (show Overlay.none ≠ .closeConfirm by decide) answers _)
  · exact refl app

theorem digit (closed : app.overlay ≠ .closeConfirm) (c : Char) :
    Harmless app (app.lift (app.digit c)) := by
  unfold WorkspaceUi.digit
  split
  · exact select closed (Workspace.selectTab_sessions ..) fun focus => focused_selectTab focus _
  · exact refl app

theorem handleBareKey (closed : app.overlay ≠ .closeConfirm) (key : KeyEvent)
    (answers : Answers Session) : Harmless app (app.handleBareKey typing key answers) := by
  unfold App.handleBareKey
  split
  · exact showing (by decide) app
  · exact showing (by decide) app
  · exact prevTab closed
  · exact nextTab closed
  · exact showing (by decide) app
  · exact showing (by decide) app
  · exact showing (by decide) app
  · exact askQuit app
  · exact showing (by decide) app
  · exact inFront app _
  · split
    · exact inFront app _
    · split
      · exact askQuit app
      · split
        · exact showing (by decide) app
        · exact inFront app _
      · exact showing (by decide) app
      · exact showing (by decide) app
      · exact prevTab closed
      · exact nextTab closed
      · split
        · exact digit closed _
        · exact inFront app _
      · exact inFront app _

theorem handleFooterFn (closed : app.overlay ≠ .closeConfirm) (n : Nat)
    (answers : Answers Session) : Harmless app (app.handleFooterFn n answers) := by
  unfold App.handleFooterFn
  split
  · exact showing (by decide) app
  · exact showing (by decide) app
  · exact prevTab closed
  · exact nextTab closed
  · exact showing (by decide) app
  · exact showing (by decide) app
  · exact (showing (by decide) app).trans (other _ _ _)
  · exact askQuit app
  · exact showing (by decide) app
  · exact inFront app _

theorem lift_toWorkspace {ws : WorkspaceUi Session} (same : ws.toWorkspace = app.toWorkspace)
    (asks : ws.overlay = .closeConfirm → app.overlay = .closeConfirm) :
    Harmless app (app.lift ws) where
  tall := id
  focused focus := same ▸ focus
  longer := Nat.le_of_eq (congrArg (fun ws => ws.sessions.length) same.symm)
  asks open' := ⟨asks open', congrArg Workspace.active same⟩

end Harmless

/- Which events ask, answer and close. -/

/-- The keys that close the session in front. -/
def closesTab : UiEvent Session → Prop
  | .key key _ => key.code = .char 'w' ∧ key.ctrl = true
  | _ => False

instance (event : UiEvent Session) : Decidable (closesTab event) :=
  match event with
  | .key key _ => inferInstanceAs (Decidable (key.code = .char 'w' ∧ key.ctrl = true))
  | .click _ _ _ | .scroll _ | .session _ _ | .resize _ => .isFalse id

def yesButton (area : Rect) : Rect :=
  Rect.new ((centered area 42 7).x + 5) ((centered area 42 7).y + 3) 7 1

/-- The answer to a dialog with the mark on `yes` or not: its key, `Enter` on the mark, or a click
on the button. -/
def saysYes (area : Rect) (yes : Bool) : UiEvent Session → Prop
  | .key key _ => confirmKey key = .yes ∨ confirmKey key = .enter ∧ yes = true
  | .click col row _ => (yesButton area).Covers col row
  | _ => False

/-- A click inside of the terminal; a terminal with room for everything. -/
def Proper (area : Rect) : UiEvent Session → Prop
  | .click col row _ => area.Covers col row
  | .resize area => 11 ≤ area.height
  | _ => True

variable (view) in
/-- Why a session may be closed: the dialog is answered, or there was no need to ask. -/
def MayClose (app : App Session) (event : UiEvent Session) : Prop :=
  app.overlay = .closeConfirm ∧ saysYes app.area app.closeYes event ∨
    closesTab event ∧ app.activeSession.any view.isLive = false

variable (view) in
/-- What an event may do. -/
inductive Outcome (app : App Session) (event : UiEvent Session) : App Session → Bool → Prop where
  | harmless {next : App Session} (harmless : Harmless app next) : Outcome app event next false
  | asks (keys : closesTab event) (live : app.activeSession.any view.isLive = true) :
    Outcome app event
      (app.lift { app.toWorkspaceUi with closeYes := true, overlay := .closeConfirm }) false
  | closes {next : WorkspaceUi Session} (may : app.MayClose view event)
    (went : app.closeActive = .ok next) : Outcome app event (app.lift next) false
  | quits (asked : app.overlay = .quit) (yes : saysYes app.area app.quitYes event) :
    Outcome app event app true

variable (view) in
/-- An event that is dealt with. -/
def Handled (app : App Session) (event : UiEvent Session)
    (result : Except Fault (App Session × Bool)) : Prop :=
  ∃ next done, result = .ok (next, done) ∧ Outcome view app event next done

theorem handled {event : UiEvent Session} (harmless : Harmless app next) :
    Handled view app event (.ok (next, false)) :=
  ⟨next, false, rfl, .harmless harmless⟩

theorem closeActive_handled {event : UiEvent Session} (focused : Focused app.toWorkspace)
    (may : app.MayClose view event) :
    Handled view app event (do return (app.lift (← app.closeActive), false)) := by
  obtain ⟨next, went, _⟩ := closeActive_safe focused
  rw [went]
  exact ⟨_, _, rfl, .closes may went⟩

theorem requestCloseActive_handled {event : UiEvent Session} (focused : Focused app.toWorkspace)
    (keys : closesTab event) :
    Handled view app event (do return (app.lift (← app.requestCloseActive view), false)) := by
  unfold WorkspaceUi.requestCloseActive
  by_cases live : app.activeSession.any view.isLive = true
  · rw [if_pos live]
    exact ⟨_, _, rfl, .asks keys live⟩
  · rw [if_neg live]
    exact closeActive_handled focused (.inr ⟨keys, Bool.eq_false_iff.mpr live⟩)

/-- The keys of the dialog that asks before a session is closed. -/
theorem closeKeys_handled {key : KeyEvent} {answers : Answers Session}
    (focused : Focused app.toWorkspace) (asked : app.overlay = .closeConfirm) :
    Handled view app (.key key answers)
      (do return (app.lift (← app.handleConfirmKeys .close (confirmKey key)), false)) := by
  have stays : ∀ ws : WorkspaceUi Session, ws.toWorkspace = app.toWorkspace →
      Handled view app (.key key answers) (.ok (app.lift ws, false)) := fun ws same =>
    handled (Harmless.lift_toWorkspace same fun _ => asked)
  cases pressed : confirmKey key with
  | turn => exact stays _ rfl
  | no => exact stays _ rfl
  | other => exact stays _ rfl
  | yes => exact closeActive_handled focused (.inl ⟨asked, .inl pressed⟩)
  | enter =>
    unfold WorkspaceUi.handleConfirmKeys
    dsimp only
    by_cases yes : app.closeYes = true
    · rw [if_pos yes]
      exact closeActive_handled focused (.inl ⟨asked, .inr ⟨pressed, yes⟩⟩)
    · rw [if_neg yes]
      exact stays _ rfl

/-- The keys of the one that asks before the program ends. -/
theorem quitKeys_handled {key : KeyEvent} {answers : Answers Session}
    (asked : app.overlay = .quit) :
    Handled view app (.key key answers)
      (do return (app.lift (← app.handleConfirmKeys .quit (confirmKey key)),
        quits app.quitYes (confirmKey key))) := by
  have stays : ∀ ws : WorkspaceUi Session, ws.toWorkspace = app.toWorkspace →
      ws.overlay = app.overlay ∨ ws.overlay = .none →
      Handled view app (.key key answers) (.ok (app.lift ws, false)) := fun ws same overlay =>
    handled (Harmless.lift_toWorkspace same fun open' => by
      rcases overlay with level | closed
      · exact level.symm.trans open'
      · cases closed.symm.trans open')
  cases pressed : confirmKey key with
  | turn => exact stays _ rfl (.inl rfl)
  | no => exact stays _ rfl (.inr rfl)
  | other => exact stays _ rfl (.inl rfl)
  | yes => exact ⟨_, _, rfl, .quits asked (.inl pressed)⟩
  | enter =>
    change Handled view app _ (.ok (app, app.quitYes))
    cases marked : app.quitYes with
    | false => exact handled (Harmless.refl app)
    | true => exact ⟨_, _, rfl, .quits asked (.inr ⟨pressed, marked⟩)⟩

theorem handleKey_handled (focused : Focused app.toWorkspace) (key : KeyEvent)
    (answers : Answers Session) :
    Handled view app (.key key answers) (app.handleKey view typing key answers) := by
  have closed : ∀ {overlay}, app.overlay = overlay → overlay ≠ .closeConfirm →
      app.overlay ≠ .closeConfirm := fun same other => same ▸ other
  unfold App.handleKey
  by_cases quit : key.code = .char 'c' ∧ key.ctrl = true
  · rw [if_pos quit]
    exact handled (Harmless.askQuit app)
  rw [if_neg quit]
  by_cases opens : key.code = .char 't' ∧ key.ctrl = true
  · rw [if_pos opens]
    exact handled (Harmless.showing (by decide) app)
  rw [if_neg opens]
  by_cases closes : key.code = .char 'w' ∧ key.ctrl = true
  · rw [if_pos closes]
    exact requestCloseActive_handled focused closes
  rw [if_neg closes]
  split
  · next asked => exact quitKeys_handled asked
  · next asked => exact closeKeys_handled focused asked
  · exact handled (Harmless.closesOn _ app key)
  · exact handled (Harmless.handleFilterKeys key answers)
  · exact handled (Harmless.handleNewSessionKeys key)
  · exact handled (Harmless.handleUriKeys key answers)
  · next same =>
    exact handled (Harmless.handleCollectionsKeys (closed same (by decide)) key answers)
  · exact handled (Harmless.handleEditOverlayKeys key answers)
  · exact handled (Harmless.handleEditOverlayKeys key answers)
  · exact handled (Harmless.closesOn _ app key)
  · split
    · exact handled (Harmless.changeAndClose app _)
    · exact handled (Harmless.closesOn _ app key)
  · next same =>
    split
    · split
      · exact handled (Harmless.replayed (closed same (by decide)) _ _)
      · exact handled (Harmless.refl app)
    · exact handled (Harmless.closesOn _ app key)
  · exact handled (Harmless.closesOn _ app key)
  · exact handled (Harmless.closesOn _ app key)
  · exact handled (Harmless.closesOn _ app key)
  · exact handled (Harmless.closesOn _ app key)
  · exact handled ((Harmless.inFront app _).trans (Harmless.closesOn _ _ key))
  · exact handled (Harmless.handlePaletteKeys key answers)
  · next same => exact handled (Harmless.handleBareKey (closed same (by decide)) key answers)

/-- A click, if what it hits is one of the buttons of a dialog that asks, or is part of a session,
or no dialog asks. -/
theorem dispatch_handled (focused : Focused app.toWorkspace) {col row : Nat}
    {answers : Answers Session} {target : Target}
    (yes : target = .quitYes → (yesButton app.area).Covers col row ∨
      app.overlay ≠ .quit ∧ app.overlay ≠ .closeConfirm)
    (asking : app.overlay = .closeConfirm →
      target = .quitYes ∨ target = .quitNo ∨ target = .overlayDismiss ∨
        bodyTarget target = true) :
    Handled view app (.click col row answers) (app.dispatch answers target) := by
  have closed : target ≠ .quitYes → target ≠ .quitNo → target ≠ .overlayDismiss →
      bodyTarget target ≠ true → app.overlay ≠ .closeConfirm := by
    intro notYes notNo stays notBody open'
    rcases asking open' with same | same | same | same
    · exact notYes same
    · exact notNo same
    · exact stays same
    · exact notBody same
  cases target with
  | tab i =>
    exact handled (Harmless.select (closed nofun nofun nofun nofun)
      (Workspace.selectTab_sessions ..) fun focus => focused_selectTab focus i)
  | newTab => exact handled (Harmless.showing (by decide) app)
  | quitNo => exact handled (Harmless.showing (by decide) app)
  | overlayDismiss => exact handled (Harmless.showing (by decide) app)
  | newKind kind =>
    have uri : Overlay.newSessionUri kind ≠ .closeConfirm := nofun
    exact handled ((Harmless.other app kind _).trans (Harmless.showing uri _))
  | footerF n =>
    exact handled (Harmless.handleFooterFn (closed nofun nofun nofun nofun) n answers)
  | focus | httpField | inspectMode | send | broadcast | logRow | historyRow =>
    exact handled (Harmless.inFront app _)
  | collectionRow i => exact handled (Harmless.refl app)
  | quitYes =>
    unfold App.dispatch
    dsimp only
    split
    · next asked =>
      have clicked := (yes rfl).resolve_right fun other => other.1 asked
      exact ⟨_, _, rfl, .quits asked clicked⟩
    · next other =>
      unfold WorkspaceUi.dispatchHit
      dsimp only
      split
      · next asked =>
        have clicked := (yes rfl).resolve_right fun other => other.2 asked
        exact closeActive_handled focused (.inl ⟨asked, clicked⟩)
      · exact handled (Harmless.refl app)

/- What a click hits while a dialog asks. -/

/-- The rows that the split of a tall terminal gives to the header and to the footer. -/
structure Splits (split : Rect → Chunks) : Prop where
  header_y : ∀ area : Rect, 11 ≤ area.height → (split area).header.y = area.y
  header_height : ∀ area : Rect, 11 ≤ area.height → (split area).header.height = 3
  upper : ∀ area : Rect, 11 ≤ area.height →
    (split area).footer.1.y = area.y + area.height - 2
  lower : ∀ area : Rect, 11 ≤ area.height →
    (split area).footer.2.y = area.y + area.height - 1

end App

theorem Rect.covers_line {x y w col row : Nat} (covered : (Rect.new x y w 1).Covers col row) :
    row = u16 y := by
  have low := (Rect.covers_iff.mp covered).2.2.1
  have high := (Rect.covers_iff.mp covered).2.2.2
  have thin : (Rect.new x y w 1).height ≤ 1 := Nat.min_le_left _ _
  have top : (Rect.new x y w 1).y = u16 y := rfl
  omega

theorem hit_push_line {x y w col row : Nat} (off : row ≠ u16 y) (hits : HitMap)
    (target : Target) :
    (hits.push (Rect.new x y w 1) target).hit col row = hits.hit col row := by
  rw [HitMap.hit_push, if_neg fun covered => off (Rect.covers_line covered)]

theorem drawTabs_off {y maxX col row : Nat} (off : row ≠ u16 y) (ws : List Nat) (i x : Nat)
    (hits : HitMap) : (drawTabs y maxX ws i x hits).2.hit col row = hits.hit col row := by
  induction ws generalizing i x hits with
  | nil => rfl
  | cons w ws ih =>
    rw [drawTabs]
    split
    · rfl
    · rw [ih, hit_push_line off]

theorem renderFooterRow_off {y col row : Nat} (off : row ≠ u16 y) (keys : List FooterKey)
    (x : Nat) (hits : HitMap) :
    (renderFooterRow y keys x hits).hit col row = hits.hit col row := by
  induction keys generalizing x hits with
  | nil => rfl
  | cons k keys ih => rw [renderFooterRow, ih, hit_push_line off]

theorem drawHeader_off {area : Rect} {col row : Nat} (off : row ≠ u16 area.inner.y)
    (labels : List String) (hits : HitMap) :
    (drawHeader area labels hits).hit col row = hits.hit col row := by
  unfold drawHeader
  dsimp only
  split
  · rw [hit_push_line off, drawTabs_off off]
  · rw [drawTabs_off off]

theorem body_hit {col row : Nat} {target : Target}
    (body : List (Rect × { target : Target // bodyTarget target = true })) {hits : HitMap}
    (hit : (body.foldl (fun hits b => hits.push b.1 b.2.val) hits).hit col row = some target) :
    bodyTarget target = true ∨ hits.hit col row = some target := by
  induction body generalizing hits with
  | nil => exact .inr hit
  | cons b body ih =>
    rcases ih hit with own | before
    · exact .inl own
    · rw [HitMap.hit_push] at before
      split at before
      · cases before
        exact .inl b.2.property
      · exact .inr before

namespace App

variable {Session : Type} {view : SessionView Session} {typing : Session → Bool}
  {screen : Screen Session} {app next : App Session}

/-- Between the header and the footer there is only what the session registers. -/
theorem drawBase_hit (splits : Splits screen.split) (tall : 11 ≤ app.area.height)
    {col row : Nat} (below : app.area.y + 2 ≤ row)
    (above : row < app.area.y + app.area.height - 2) {target : Target}
    (hit : (app.drawBase screen).hit col row = some target) : bodyTarget target = true := by
  have bottom := app.area.bottom_fits
  have header : (screen.split app.area).header.inner.y = app.area.y + 1 := by
    have y := splits.header_y app.area tall
    have height := splits.header_height app.area tall
    simp only [Rect.inner, Rect.bottom, Rect.bottom_eq]
    omega
  unfold drawBase drawFooter at hit
  dsimp only at hit
  rw [splits.upper app.area tall, splits.lower app.area tall,
    renderFooterRow_off (by rw [u16_of_lt (by omega)]; omega),
    renderFooterRow_off (by rw [u16_of_lt (by omega)]; omega)] at hit
  rcases body_hit _ hit with own | before
  · exact own
  · rw [drawHeader_off (by rw [header, u16_of_lt (by omega)]; omega)] at before
    cases before

/-- A dialog of seven lines keeps clear of the bar of tabs and of the function keys. -/
theorem drawQuit_rows {area : Rect} (tall : 11 ≤ area.height) {col row : Nat}
    (covered : (drawQuit area).rect.Covers col row) :
    area.y + 2 ≤ row ∧ row < area.y + area.height - 2 := by
  have bottom := area.bottom_fits
  have low := (Rect.covers_iff.mp covered).2.2.1
  have high := (Rect.covers_iff.mp covered).2.2.2
  have top : (drawQuit area).rect.y = area.y + (area.height - 7) / 2 := by
    have small : area.y + (area.height - 7) / 2 < 65536 := by omega
    change u16 (u16 (area.y + (area.height - 7) / 2)) = _
    rw [u16_of_lt small, u16_of_lt small]
  have height : (drawQuit area).rect.height ≤ 7 :=
    Nat.le_trans (Nat.min_le_left _ _) (Nat.min_le_left _ _)
  omega

/-- While a dialog asks, a click answers it, or leaves it, or goes to the session behind it. -/
theorem asking_hit (splits : Splits screen.split) (tall : 11 ≤ app.area.height)
    (asks : app.overlay = .quit ∨ app.overlay = .closeConfirm) {col row : Nat}
    (inside : app.area.Covers col row) {target : Target}
    (hit : (app.draw screen).hit col row = some target) :
    target = .quitYes ∧ (yesButton app.area).Covers col row ∨ target = .quitNo ∨
      target = .overlayDismiss ∨ bodyTarget target = true := by
  have drawn : app.draw screen = (drawQuit app.area).register app.area (app.drawBase screen) := by
    unfold draw
    rcases asks with same | same <;> rw [same] <;> rfl
  rw [drawn, hit_register _ _ inside] at hit
  have buttons : (drawQuit app.area).buttonAt col row =
      if (Rect.new ((centered app.area 42 7).x + 18) ((centered app.area 42 7).y + 3) 6 1).Covers
          col row then some .quitNo
      else if (yesButton app.area).Covers col row then some .quitYes
      else none := by
    unfold Dialog.buttonAt drawQuit yesButton
    simp only [List.reverse_cons, List.reverse_nil, List.nil_append, List.cons_append,
      List.find?_cons, List.find?_nil]
    split
    · next no => rw [if_pos (of_decide_eq_true no)]; rfl
    · next no =>
      rw [if_neg (of_decide_eq_false no)]
      split
      · next yes => rw [if_pos (of_decide_eq_true yes)]; rfl
      · next yes => rw [if_neg (of_decide_eq_false yes)]; rfl
  rw [buttons] at hit
  split at hit
  · cases hit
    exact .inr (.inl rfl)
  split at hit
  · next covered =>
    cases hit
    exact .inl ⟨rfl, covered⟩
  rw [Option.none_or] at hit
  split at hit
  · next covered =>
    have rows := drawQuit_rows tall covered
    exact .inr (.inr (.inr (drawBase_hit splits tall rows.1 rows.2 hit)))
  · cases hit
    exact .inr (.inr (.inl rfl))

/- Runs. -/

variable (view typing screen) in
/-- Every event is dealt with, whatever is open. -/
theorem handleEvent_handled (splits : Splits screen.split) (tall : 11 ≤ app.area.height)
    (focused : Focused app.toWorkspace) {event : UiEvent Session}
    (proper : Proper app.area event) :
    Handled view app event (app.handleEvent view typing screen event) := by
  cases event with
  | key key answers => exact handleKey_handled focused key answers
  | scroll change => exact handled (Harmless.inFront app change)
  | session idx change =>
    exact handled {
      tall := id
      focused := fun focus => focused_update focus idx change
      longer := Nat.le_of_eq (List.length_modify ..).symm
      asks := fun open' => ⟨open', rfl⟩ }
  | resize area =>
    exact handled {
      tall := fun _ => proper
      focused := id
      longer := Nat.le_refl _
      asks := fun open' => ⟨open', rfl⟩ }
  | click col row answers =>
    unfold handleEvent
    dsimp only
    split
    · next target hit =>
      by_cases asks : app.overlay = .quit ∨ app.overlay = .closeConfirm
      · have answer := asking_hit splits tall asks proper hit
        refine dispatch_handled focused (fun yes => .inl ?_) fun _ => ?_
        · subst yes
          rcases answer with same | same | same | same
          · exact same.2
          · cases same
          · cases same
          · cases same
        · exact answer.imp_left And.left
      · rw [not_or] at asks
        exact dispatch_handled focused (fun _ => .inr asks) fun open' => absurd open' asks.2
    · exact handled (Harmless.refl app)

/-- Which session the dialog that is open after an event was opened for. -/
def nowAsked (asked : Option Nat) (event : UiEvent Session) (next : App Session) :
    Option Nat :=
  if next.overlay = .closeConfirm then
    if closesTab event then some next.active else asked
  else none

variable (view typing screen) in
/-- The states that events lead to, and the session that the dialog was opened for. -/
inductive Reached (start : App Session) : App Session → Option Nat → Prop where
  | start : Reached start start none
  | event {app next : App Session} {asked : Option Nat} (reached : Reached start app asked)
    (event : UiEvent Session) (proper : Proper app.area event)
    (went : app.handleEvent view typing screen event = .ok (next, false)) :
    Reached start next (nowAsked asked event next)

/-- What holds in every state of a run. -/
structure Guarded (app : App Session) (asked : Option Nat) : Prop where
  focused : Focused app.toWorkspace
  tall : 11 ≤ app.area.height
  front : app.overlay = .closeConfirm → asked = some app.active

/-- Closing leaves the dialog behind, if there is anything to close. -/
theorem closeActive_asks {ws next : WorkspaceUi Session} (focused : Focused ws.toWorkspace)
    (went : ws.closeActive = .ok next) (open' : next.overlay = .closeConfirm) : next = ws := by
  rcases focused with inside | ⟨none, _⟩
  · rw [closeActive_eq inside] at went
    cases went
    cases open'
  · rw [closeActive, none] at went
    exact (Except.ok.inj went).symm

theorem guarded_step {asked : Option Nat} (guarded : Guarded app asked)
    {event : UiEvent Session} {done : Bool} (outcome : Outcome view app event next done) :
    Guarded next (nowAsked asked event next) := by
  have front : (next.overlay = .closeConfirm → closesTab event ∨
      app.overlay = .closeConfirm ∧ next.active = app.active) →
      next.overlay = .closeConfirm → nowAsked asked event next = some next.active := by
    intro asks open'
    rw [nowAsked, if_pos open']
    rcases asks open' with keys | ⟨before, same⟩
    · rw [if_pos keys]
    · split
      · rfl
      · rw [guarded.front before, same]
  cases outcome with
  | harmless harmless =>
    exact ⟨harmless.focused guarded.focused, harmless.tall guarded.tall,
      front fun open' => .inr (harmless.asks open')⟩
  | asks keys live => exact ⟨guarded.focused, guarded.tall, front fun _ => .inl keys⟩
  | closes may went =>
    obtain ⟨closed, same, focused, _⟩ := closeActive_safe guarded.focused
    cases went.symm.trans same
    refine ⟨focused, guarded.tall, front fun open' => .inr ?_⟩
    have left := closeActive_asks guarded.focused went open'
    exact ⟨left ▸ open', congrArg (fun ws => ws.active) left⟩
  | quits asked yes => exact ⟨guarded.focused, guarded.tall, front fun open' => .inr ⟨open', rfl⟩⟩

theorem guarded_reached (splits : Splits screen.split) {start : App Session}
    (focused : Focused start.toWorkspace) (tall : 11 ≤ start.area.height)
    (quiet : start.overlay ≠ .closeConfirm) {asked : Option Nat}
    (reached : Reached view typing screen start app asked) : Guarded app asked := by
  induction reached with
  | start => exact ⟨focused, tall, fun open' => absurd open' quiet⟩
  | event reached event proper went ih =>
    obtain ⟨next, done, same, outcome⟩ :=
      handleEvent_handled view typing screen splits ih.tall ih.focused proper
    cases went.symm.trans same
    exact guarded_step ih outcome

/-- The split of a terminal with room for everything. -/
def split (area : Rect) : Chunks where
  header := Rect.new area.x area.y area.width 3
  footer := (Rect.new area.x (area.y + area.height - 2) area.width 1,
    Rect.new area.x (area.y + area.height - 1) area.width 1)

theorem splits_split : Splits split where
  header_y area tall := by
    have bottom := area.bottom_fits
    exact u16_of_lt (by omega)
  header_height area tall := by
    have bottom := area.bottom_fits
    change min 3 (65535 - u16 area.y) = 3
    rw [u16_of_lt (by omega)]
    exact Nat.min_eq_left (by omega)
  upper area tall := by
    have bottom := area.bottom_fits
    exact u16_of_lt (by omega)
  lower area tall := by
    have bottom := area.bottom_fits
    exact u16_of_lt (by omega)

/-- A connected stream on a terminal of 80 columns and 24 rows. -/
def connected : App Unit where
  sessions := [()]
  active := 0
  area := Rect.new 0 0 80 24

def connectedView : SessionView Unit where
  kind _ := .stream
  status _ := .connected
  sniffs _ _ := false

def connectedScreen : Screen Unit where
  split := split
  labels _ := [" 1 "]
  body _ := []
  front _ := .stream false true
  dialogs _ := ⟨none, 0, false, false⟩

def closing : App Unit :=
  connected.lift { connected.toWorkspaceUi with overlay := .closeConfirm }

end App

end BitBeak.Ui
