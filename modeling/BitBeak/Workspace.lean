import Mathlib.Data.List.InsertIdx
import Mathlib.Tactic.Common

/-! The workspace: a row of sessions and the tab in front. What a session is stays open
here; routing and live capture each bring their own. -/
namespace BitBeak

structure Workspace (Session : Type) where
  sessions : List Session := []
  active : Nat := 0
  deriving DecidableEq

namespace Workspace

variable {Session : Type}

def activeSession (ws : Workspace Session) : Option Session := ws.sessions[ws.active]?

def nextTab (ws : Workspace Session) : Workspace Session :=
  if ws.sessions.isEmpty then ws
  else { ws with active := (ws.active + 1) % ws.sessions.length }

def prevTab (ws : Workspace Session) : Workspace Session :=
  if ws.sessions.isEmpty then ws
  else { ws with active := if ws.active = 0 then ws.sessions.length - 1 else ws.active - 1 }

/-- A digit key or a click on a tab. -/
def selectTab (ws : Workspace Session) (idx : Nat) : Workspace Session :=
  if idx < ws.sessions.length then { ws with active := idx } else ws

/-- What the `open_*` functions do once the session is made. -/
def openTab (ws : Workspace Session) (session : Session) : Workspace Session :=
  { sessions := ws.sessions ++ [session], active := ws.sessions.length }

/-- `close_active` behind the capture stop. -/
def removeActive (ws : Workspace Session) : Workspace Session :=
  if ws.sessions.isEmpty then ws
  else
    let sessions := ws.sessions.eraseIdx ws.active
    { sessions := sessions
      active := if sessions.length ≤ ws.active then sessions.length - 1 else ws.active }

/-- Applies `f` to the session at `i`. -/
def update (ws : Workspace Session) (i : Nat) (f : Session → Session) : Workspace Session :=
  { ws with sessions := ws.sessions.modify i f }

/-- The workspace seen through a view of its sessions. -/
def map {View : Type} (f : Session → View) (ws : Workspace Session) : Workspace View where
  sessions := ws.sessions.map f
  active := ws.active

@[simp] theorem nextTab_sessions (ws : Workspace Session) : ws.nextTab.sessions = ws.sessions := by
  unfold nextTab
  split <;> rfl

@[simp] theorem prevTab_sessions (ws : Workspace Session) : ws.prevTab.sessions = ws.sessions := by
  unfold prevTab
  split <;> rfl

@[simp] theorem selectTab_sessions (ws : Workspace Session) (idx : Nat) :
    (ws.selectTab idx).sessions = ws.sessions := by
  unfold selectTab
  split <;> rfl

@[simp] theorem openTab_sessions (ws : Workspace Session) (session : Session) :
    (ws.openTab session).sessions = ws.sessions ++ [session] := rfl

@[simp] theorem removeActive_sessions (ws : Workspace Session) :
    ws.removeActive.sessions = ws.sessions.eraseIdx ws.active := by
  unfold removeActive
  split
  · next empty => simp [List.isEmpty_iff.mp empty]
  · rfl

@[simp] theorem update_sessions (ws : Workspace Session) (i : Nat) (f : Session → Session) :
    (ws.update i f).sessions = ws.sessions.modify i f := rfl

section views
variable {View : Type} (f : Session → View) (ws : Workspace Session)

theorem map_activeSession : (ws.map f).activeSession = ws.activeSession.map f :=
  List.getElem?_map

theorem map_nextTab : ws.nextTab.map f = (ws.map f).nextTab := by
  unfold nextTab
  by_cases empty : ws.sessions = [] <;> simp [map, empty]

theorem map_prevTab : ws.prevTab.map f = (ws.map f).prevTab := by
  unfold prevTab
  by_cases empty : ws.sessions = [] <;> simp [map, empty]

theorem map_selectTab (idx : Nat) : (ws.selectTab idx).map f = (ws.map f).selectTab idx := by
  unfold selectTab
  by_cases inside : idx < ws.sessions.length <;> simp [map, inside]

theorem map_openTab (session : Session) :
    (ws.openTab session).map f = (ws.map f).openTab (f session) := by
  simp [openTab, map]

theorem map_removeActive : ws.removeActive.map f = (ws.map f).removeActive := by
  unfold removeActive
  by_cases empty : ws.sessions = [] <;> simp [map, empty, List.eraseIdx_map]

theorem map_update {g : Session → Session} {h : View → View} (i : Nat)
    (same : ∀ session, f (g session) = h (f session)) :
    (ws.update i g).map f = (ws.map f).update i h := by
  simp only [map, update, Workspace.mk.injEq, and_true]
  apply List.ext_getElem?
  intro j
  simp only [List.getElem?_map, List.getElem?_modify]
  by_cases here : i = j <;> simp [here, Function.comp_def, same]

end views

end Workspace

end BitBeak
