import BitBeak.Ui.Bars
import BitBeak.Ui.Dialogs
import BitBeak.Ui.Palette

/-! Keys, clicks and what the sessions receive, one event after the other, with the screen drawn
before each. What an event does to a session, and what the sessions, the files and the text areas
answer, comes with the event. -/
namespace BitBeak.Ui
open BitBeak Wire

inductive KeyCode where
  | char (c : Char)
  | f (n : Nat)
  | enter
  | esc
  | tab
  | backTab
  | up
  | down
  | left
  | right
  | home
  | «end»
  | pageUp
  | pageDown
  | other
  deriving DecidableEq, Repr

structure KeyEvent where
  code : KeyCode
  ctrl : Bool := false
  deriving DecidableEq, Repr

/-- A workspace with the size of its terminal. -/
structure App (Session : Type) extends WorkspaceUi Session where
  area : Rect
  newSessionCursor : Nat := 0
  collectionShowRequests : Bool := false

/-- `change` is what is done to the session in front, `made` the session that a URI, a path or an
interface opens, `line` the text of the palette. `found` says whether what a command looks for is
there, `loaded` whether a collection is. -/
structure Answers (Session : Type) where
  change : Session → Session := id
  made : Option Session := none
  http : Option Session := none
  load : Session → Session := id
  iface : String := ""
  line : String := ""
  found : Bool := false
  loaded : Bool := false

inductive UiEvent (Session : Type) where
  | key (key : KeyEvent) (answers : Answers Session)
  | click (col row : Nat) (answers : Answers Session)
  | scroll (change : Session → Session)
  | session (idx : Nat) (change : Session → Session)
  | resize (area : Rect)

namespace App

variable {Session : Type} (view : SessionView Session) (typing : Session → Bool)

def lift (app : App Session) (ws : WorkspaceUi Session) : App Session :=
  { app with toWorkspaceUi := ws }

def showing (app : App Session) (overlay : Overlay) : App Session :=
  app.lift { app.toWorkspaceUi with overlay := overlay }

/-- The session in front changes, and nothing else. -/
def inFront (app : App Session) (f : Session → Session) : App Session :=
  app.lift { app.toWorkspaceUi with toWorkspace := app.update app.active f }

def askQuit (app : App Session) : App Session :=
  app.lift { app.toWorkspaceUi with overlay := .quit, quitYes := true }

def isKind (app : App Session) (kind : SessionKind) : Bool :=
  app.activeSession.any fun session => view.kind session = kind

/-- `open_uri_entry`, `open_from_uri` and the commands that open a session. -/
def openUri (app : App Session) (answers : Answers Session) : App Session :=
  match answers.made with
  | some made => app.lift (app.openSession made)
  | none => app

/- The keys of the overlays. -/

def confirmKey (key : KeyEvent) : ConfirmKey :=
  match key.code with
  | .left | .right | .char 'h' | .char 'l' | .tab => .turn
  | .enter => .enter
  | .char 'y' | .char 'Y' => .yes
  | .char 'n' | .char 'N' | .esc => .no
  | _ => .other

/-- The answer to the quit dialog that ends the program. -/
def quits (yes : Bool) : ConfirmKey → Bool
  | .enter => yes
  | .yes => true
  | _ => false

def closesOn (keys : List KeyCode) (app : App Session) (key : KeyEvent) : App Session :=
  if key.code ∈ keys then app.showing .none else app

def handleFilterKeys (app : App Session) (key : KeyEvent) (answers : Answers Session) :
    App Session :=
  match key.code with
  | .esc => app.showing .none
  | .enter => (app.inFront answers.change).showing .none
  | _ => app

def handleNewSessionKeys (app : App Session) (key : KeyEvent) : App Session :=
  match key.code with
  | .esc => app.showing .none
  | .up | .char 'k' => { app with newSessionCursor := app.newSessionCursor - 1 }
  | .down | .char 'j' =>
    if app.newSessionCursor + 1 < newKinds then
      { app with newSessionCursor := app.newSessionCursor + 1 }
    else app
  | .enter => app.showing (.newSessionUri app.newSessionCursor)
  | _ => app

def handleUriKeys (app : App Session) (key : KeyEvent) (answers : Answers Session) :
    App Session :=
  match key.code with
  | .esc => app.showing .newSession
  | .enter => app.openUri answers
  | _ => app

def handleEditOverlayKeys (app : App Session) (key : KeyEvent) (answers : Answers Session) :
    App Session :=
  match key.code with
  | .esc => app.showing .none
  | .enter => if key.ctrl then (app.inFront answers.change).showing .none else app
  | _ => app

/-- A request that is loaded is loaded into an HTTP session, which is opened if need be. -/
def ensureHttp (app : App Session) (answers : Answers Session) : App Session :=
  match answers.http with
  | some made => app.lift (app.ensureHttpAndLoad view made answers.load)
  | none => app

def handleCollectionsKeys (app : App Session) (key : KeyEvent) (answers : Answers Session) :
    App Session :=
  match key.code with
  | .esc =>
    if app.collectionShowRequests then { app with collectionShowRequests := false }
    else app.showing .none
  | .char 'S' | .char 's' =>
    if answers.found then { app with collectionShowRequests := true } else app
  | .enter =>
    if app.collectionShowRequests then
      if answers.found then (app.ensureHttp view answers).showing .none else app
    else if answers.found then { app with collectionShowRequests := true }
    else app
  | _ => app

/-- What a command does to the overlay and to the row of sessions. -/
def runPalette (app : App Session) (answers : Answers Session) : PaletteCommand → App Session
  | .help => app.showing .help
  | .quit => app.askQuit
  | .openUri _ _ | .proxy _ _ | .capture _ | .openFile _ | .rpcapCapture _ =>
    app.openUri answers
  | .composer => if app.isKind view .capture then app.openUri answers else app
  | .followTcp | .followUdp | .followHttp =>
    if app.isKind view .capture then
      if answers.found then (app.inFront answers.change).showing .followStream else app
    else app
  | .sniff _ =>
    match answers.made with
    | some made =>
      if answers.found then
        app.lift (app.sniffFromHttp view answers.iface made answers.change)
      else app
    | none => app
  | .conversations => if app.isKind view .capture then app.showing .conversations else app
  | .endpoints => if app.isKind view .capture then app.showing .endpoints else app
  | .hierarchy => if app.isKind view .capture then app.showing .hierarchy else app
  | .expert => if app.isKind view .capture then app.showing .expert else app
  | .keylog => if app.isKind view .capture then app.showing .keylog else app
  | .replayHttp =>
    match app.isKind view .capture && answers.found, answers.http with
    | true, some made => app.lift (app.replayFollowIntoHttp view made answers.load)
    | _, _ => app
  | .run _ => if answers.found then app.ensureHttp view answers else app
  | .fuzz => app.showing .fuzz
  | .preScript => if app.isKind view .http then app.showing .preScriptEdit else app
  | .tests => if app.isKind view .http then app.showing .testsEdit else app
  | .importPath _ =>
    if answers.found then { app with collectionShowRequests := true } else app
  | _ => app.inFront answers.change

def handlePaletteKeys (app : App Session) (key : KeyEvent) (answers : Answers Session) :
    App Session :=
  match key.code with
  | .esc => app.showing .none
  | .enter => (app.showing .none).runPalette view answers (runPaletteCommand answers.line)
  | _ => app

/-- The keys without an overlay. The session in front takes what is left. -/
def handleBareKey (app : App Session) (key : KeyEvent) (answers : Answers Session) :
    App Session :=
  match key.code with
  | .f 1 => app.showing .help
  | .f 2 => app.showing .newSession
  | .f 3 => app.lift { app.toWorkspaceUi with toWorkspace := app.prevTab }
  | .f 4 => app.lift { app.toWorkspaceUi with toWorkspace := app.nextTab }
  | .f 7 => app.showing .bench
  | .f 8 => app.showing .filter
  | .f 9 => app.showing .collections
  | .f 10 => app.askQuit
  | .f 11 => app.showing .fuzz
  | .f _ => app.inFront answers.change
  | code =>
    if app.activeSession.any typing then app.inFront answers.change
    else
      match code with
      | .char 'q' => app.askQuit
      | .char 'k' => if key.ctrl then app.showing .commandPalette else app.inFront answers.change
      | .char ':' => app.showing .commandPalette
      | .char '/' => app.showing .filter
      | .char '[' => app.lift { app.toWorkspaceUi with toWorkspace := app.prevTab }
      | .char ']' => app.lift { app.toWorkspaceUi with toWorkspace := app.nextTab }
      | .char c =>
        if '1' ≤ c ∧ c ≤ '9' then app.lift (app.digit c) else app.inFront answers.change
      | _ => app.inFront answers.change

/-- The result says whether the program ends. -/
def handleKey (app : App Session) (key : KeyEvent) (answers : Answers Session) :
    Except Fault (App Session × Bool) :=
  if key.code = .char 'c' ∧ key.ctrl then .ok (app.askQuit, false)
  else if key.code = .char 't' ∧ key.ctrl then .ok (app.showing .newSession, false)
  else if key.code = .char 'w' ∧ key.ctrl then do
    return (app.lift (← app.requestCloseActive view), false)
  else
    match app.overlay with
    | .quit => do
      return (app.lift (← app.handleConfirmKeys .quit (confirmKey key)),
        quits app.quitYes (confirmKey key))
    | .closeConfirm => do
      return (app.lift (← app.handleConfirmKeys .close (confirmKey key)), false)
    | .help => .ok (closesOn [.esc, .enter, .f 1, .char 'q'] app key, false)
    | .filter => .ok (app.handleFilterKeys key answers, false)
    | .newSession => .ok (app.handleNewSessionKeys key, false)
    | .newSessionUri _ => .ok (app.handleUriKeys key answers, false)
    | .collections => .ok (app.handleCollectionsKeys view key answers, false)
    | .testsEdit | .preScriptEdit => .ok (app.handleEditOverlayKeys key answers, false)
    | .bench => .ok (closesOn [.esc] app key, false)
    | .fuzz =>
      if key.code = .enter then .ok ((app.inFront answers.change).showing .none, false)
      else .ok (closesOn [.esc] app key, false)
    | .followStream =>
      if key.code = .char 'r' then
        match answers.http with
        | some made => .ok (app.lift (app.replayFollowIntoHttp view made answers.load), false)
        | none => .ok (app, false)
      else .ok (closesOn [.esc, .enter, .char 'q'] app key, false)
    | .endpoints | .hierarchy | .expert | .keylog =>
      .ok (closesOn [.esc, .enter, .char 'q'] app key, false)
    | .conversations =>
      .ok (closesOn [.esc, .enter, .char 'q'] (app.inFront answers.change) key, false)
    | .commandPalette => .ok (app.handlePaletteKeys view key answers, false)
    | .none => .ok (app.handleBareKey typing key answers, false)

/- Clicks. -/

def handleFooterFn (app : App Session) (n : Nat) (answers : Answers Session) : App Session :=
  match n with
  | 1 => app.showing .help
  | 2 => app.showing .newSession
  | 3 => app.lift { app.toWorkspaceUi with toWorkspace := app.prevTab }
  | 4 => app.lift { app.toWorkspaceUi with toWorkspace := app.nextTab }
  | 7 => app.showing .bench
  | 8 => app.showing .filter
  | 9 => { app.showing .collections with collectionShowRequests := answers.loaded }
  | 10 => app.askQuit
  | 11 => app.showing .fuzz
  | _ => app.inFront answers.change

def dispatch (app : App Session) (answers : Answers Session) :
    Target → Except Fault (App Session × Bool)
  | .tab i => do return (app.lift (← app.dispatchHit (.tab i)), false)
  | .newTab => do return (app.lift (← app.dispatchHit .newTab), false)
  | .quitYes =>
    match app.overlay with
    | .quit => .ok (app, true)
    | _ => do return (app.lift (← app.dispatchHit .quitYes), false)
  | .quitNo => do return (app.lift (← app.dispatchHit .quitNo), false)
  | .newKind kind => do
    return (({ app with newSessionCursor := kind } : App Session).lift
      (← app.dispatchHit (.newKind kind)), false)
  | .overlayDismiss => do return (app.lift (← app.dispatchHit .overlayDismiss), false)
  | .footerF n => .ok (app.handleFooterFn n answers, false)
  | .focus _ | .httpField _ | .inspectMode _ | .send | .broadcast | .logRow _ | .historyRow _ =>
    .ok (app.inFront answers.change, false)
  | .collectionRow _ => .ok (app, false)

end App

/- The screen. -/

/-- What a session registers in its own part of the screen. -/
def bodyTarget : Target → Bool
  | .focus _ | .httpField _ | .inspectMode _ | .send | .broadcast | .logRow _ | .historyRow _ =>
    true
  | _ => false

/-- The rows of the header, and the two of the footer. -/
structure Chunks where
  header : Rect
  footer : Rect × Rect

/-- How the terminal is split, and what of the sessions is drawn: their labels, what the one in
front registers, and what the footer and the dialogs read of them. -/
structure Screen (Session : Type) where
  split : Rect → Chunks
  labels : WorkspaceUi Session → List String
  body : App Session → List (Rect × { target : Target // bodyTarget target = true })
  front : WorkspaceUi Session → FrontView
  dialogs : App Session → DialogView

namespace App

variable {Session : Type} (view : SessionView Session) (typing : Session → Bool)
  (screen : Screen Session)

/-- What is registered below an overlay. -/
def drawBase (app : App Session) : HitMap :=
  let chunks := screen.split app.area
  let hits := drawHeader chunks.header (screen.labels app.toWorkspaceUi) {}
  let hits := (screen.body app).foldl (fun hits b => hits.push b.1 b.2.val) hits
  drawFooter (screen.front app.toWorkspaceUi) chunks.footer hits

def draw (app : App Session) : HitMap :=
  match drawOverlay (screen.dialogs app) app.area app.overlay with
  | some dialog => dialog.register app.area (app.drawBase screen)
  | none => app.drawBase screen

/-- One turn of the event loop behind the drawing. -/
def handleEvent (app : App Session) : UiEvent Session → Except Fault (App Session × Bool)
  | .key key answers => app.handleKey view typing key answers
  | .click col row answers =>
    match (app.draw screen).hit col row with
    | some target => app.dispatch answers target
    | none => .ok (app, false)
  | .scroll change => .ok (app.inFront change, false)
  | .session idx change =>
    .ok (app.lift { app.toWorkspaceUi with toWorkspace := app.update idx change }, false)
  | .resize area => .ok ({ app with area := area }, false)

end App

end BitBeak.Ui
