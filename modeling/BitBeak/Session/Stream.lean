import BitBeak.Cli
import BitBeak.Composer
import BitBeak.Framing
import BitBeak.Session.Listen
import BitBeak.Ui.TextareaUtil

/-! The session of a stream: its log, the frame that is selected in it, and the composer. What it
tells its I/O task is returned beside it. -/
namespace BitBeak
open ByteText Wire

structure StreamSession where
  target : Cli.Target
  framing : FramingConfig
  status : ConnStatus
  frames : FrameBuffer
  selected : Nat
  follow : Bool
  focus : PaneFocus
  composerMode : ComposerMode
  composer : TextArea
  filter : String
  statusMsg : String

namespace StreamSession

def start (target : Cli.Target) (framing : FramingConfig) (maxFrames : Nat) : StreamSession where
  target := target
  framing := framing
  status := .connecting
  frames := .new maxFrames
  selected := 0
  follow := true
  focus := .log
  composerMode := .utf8
  composer := .multiLine ""
  filter := ""
  statusMsg := ""

def reconnect (s : StreamSession) : StreamSession :=
  { s with status := .connecting, statusMsg := "reconnecting…" }

def sendBytes (payload : Bytes) : IoCommand := .send payload none

def selectedFrame (s : StreamSession) : Option Frame := (s.frames.filtered s.filter)[s.selected]?

def replaySelected (s : StreamSession) : Option IoCommand :=
  s.selectedFrame.map fun frame => sendBytes frame.payload

def loadSelectedToComposer (s : StreamSession) : StreamSession :=
  match s.selectedFrame with
  | some frame =>
    { s with
      composer := .setText (encodeForEdit frame.payload s.composerMode)
      focus := .composer }
  | none => s

def composerText (s : StreamSession) : String := s.composer.textOf

/-- The decoder may stop the program. -/
def sendComposer (s : StreamSession) : Except Panic (StreamSession × Option IoCommand) := do
  match ← (decodePayload s.composerText s.composerMode).run with
  | .ok bytes => return (s, some (sendBytes bytes))
  | .error e => return ({ s with statusMsg := e }, none)

def onIo (s : StreamSession) : IoEvent → StreamSession
  | .connected peer => { s with status := .connected, statusMsg := "connected to " ++ peer }
  | .disconnected reason =>
    { s with
      status := .disconnected
      statusMsg := "disconnected: " ++ reason ++ " — F6 reconnect" }
  | .frame direction payload peer =>
    let frames := s.frames.pushFull direction payload peer none
    let len := (frames.filtered s.filter).length
    { s with
      frames := frames
      selected := if s.follow ∧ 0 < len then len - 1 else s.selected }
  | .error message => { s with status := .error, statusMsg := message }
  | .status message => { s with statusMsg := message }
  | .clientJoined _ _ | .clientLeft _ => s

theorem onIo_kept (s : StreamSession) (event : IoEvent) :
    (s.onIo event).target = s.target ∧ (s.onIo event).framing = s.framing := by
  cases event <;> exact ⟨rfl, rfl⟩

end StreamSession

end BitBeak
