import BitBeak.Http.Client
import BitBeak.Lib.Occurrence

/-! Saved requests and environments. A variable of an environment stands in a text between double
braces. -/
namespace BitBeak.Collections
open Http

structure Environment where
  name : String := ""
  vars : List (String × String) := []
  deriving DecidableEq, Repr

inductive HttpVersion where
  | auto
  | http1
  | http2
  deriving DecidableEq, Repr

structure RequestTest where
  expr : String
  deriving DecidableEq, Repr

structure SavedRequest where
  name : String := ""
  kind : String := "http"
  target : String := ""
  method : Option String := some "GET"
  headers : Headers := []
  body : String := ""
  auth : AuthKind := .none
  authToken : String := ""
  authUser : String := ""
  authPass : String := ""
  authKey : String := "X-Api-Key"
  authValue : String := ""
  bodyMode : BodyMode := .raw
  formFields : List FormField := []
  tests : List RequestTest := []
  followRedirects : Bool := true
  maxRedirects : UInt8 := 10
  httpVersion : HttpVersion := .auto
  graphqlVariables : String := ""
  graphqlOperation : String := ""
  preScript : String := ""
  grpcMode : Bool := false
  grpcDescriptor : String := ""
  grpcMessageType : String := ""
  grpcReplyType : String := ""
  deriving DecidableEq, Repr

structure Collection where
  name : String := ""
  requests : List SavedRequest := []
  environments : List Environment := []
  activeEnv : Option String := none
  deriving DecidableEq, Repr

/-- `str::replace`, of a text that is not empty. -/
def replace (text pattern new : String) : String :=
  String.ofList (new.toList.intercalate (Occurrence.split pattern.toList text.toList))

namespace Collection

def activeVars (col : Collection) : List (String × String) :=
  match col.activeEnv.bind fun name => col.environments.find? fun e => e.name = name with
  | some env => env.vars
  | none => []

def substitute (col : Collection) (text : String) : String :=
  col.activeVars.foldl (fun out (k, v) => replace out ("\x7b\x7b" ++ k ++ "\x7d\x7d") v) text

end Collection

end BitBeak.Collections
