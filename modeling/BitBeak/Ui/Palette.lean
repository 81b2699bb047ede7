import BitBeak.Cli
import BitBeak.Http.Words
import BitBeak.Lib.Arms

/-! The command palette: which command a line is. -/
namespace BitBeak.Ui
open BitBeak BitBeak.Cli Arms

/-- A command with what it was given. The number of `openUri` is that of the kind of session. -/
inductive PaletteCommand where
  | help
  | quit
  | openUri (kind : Nat) (uri : String)
  | proxy (tls : Bool) (uri : String)
  | caPath
  | capture (iface : String)
  | openFile (path : String)
  | followTcp
  | followUdp
  | followHttp
  | sniff (iface : Option String)
  | conversations
  | endpoints
  | hierarchy
  | expert
  | keylog
  | loadKeylog (path : String)
  | save (path : Option String) (all : Bool)
  | inject
  | composer
  | replayHttp
  | namesToggle
  | cfilter (filter : String)
  | exportObjects
  | run (name : String)
  | env (name : String)
  | importPath (path : String)
  | cookies (on : Bool)
  | auth
  | bodyMode
  | history
  | manufReload
  | manufStatus
  | httpVersion
  | grpc
  | grpcDesc (path : String)
  | grpcType (messageType : String)
  | gqlIntrospect
  | rpcapCapture (target : String)
  | rpcapProbe (host : String) (port : Nat)
  | rpcapUsage
  | codegen (name lang : String)
  | codegenUsage
  | oauth
  | fuzz
  | setPreScript (script : String)
  | preScript
  | preScriptClear
  | addTest (expr : String)
  | testUsage
  | tests
  | testClear
  | grpcReply (reply : String)
  | geoipStatus
  | unknown (cmd : String)
  deriving DecidableEq, Repr

namespace PaletteCommand

def isTlsFlag (tok : String) : Bool := tok = "--tls-intercept" || tok = "--mitm"

def proxyOf (rest : String) : PaletteCommand :=
  let toks := splitWhitespace rest
  .proxy (toks.any isTlsFlag) (" ".intercalate (toks.filter fun tok => !isTlsFlag tok))

/-- An interface that is empty is none. -/
def sniffOf (rest : String) : PaletteCommand :=
  let iface := trim rest
  .sniff (if iface = "" then none else some iface)

/-- A port that cannot be read is 2002. -/
def hostPort (text : String) : String × Nat :=
  match rsplitOnce ':' text with
  | some (h, p) => (h, (parseU16 p).getD 2002)
  | none => (text, 2002)

def rpcapOf (rest : String) : PaletteCommand :=
  match splitWhitespace rest with
  | [] => .rpcapUsage
  | [host] => .rpcapProbe (hostPort host).1 (hostPort host).2
  | hostport :: iface :: _ =>
    .rpcapCapture ("rpcap://" ++ (hostPort hostport).1 ++ ":" ++
      toString (hostPort hostport).2 ++ "/" ++ iface)

def codegenOf (rest : String) : PaletteCommand :=
  let parts := splitWhitespace rest
  let name := parts.head?.getD ""
  if name = "" then .codegenUsage else .codegen name (parts[1]?.getD "curl")

def testOf (rest : String) : PaletteCommand :=
  let expr := trim rest
  if expr = "" then .testUsage else .addTest expr

end PaletteCommand

open PaletteCommand in
/-- The arms of `run_palette_command`, up to those that take a URI. -/
def paletteArms : List (Pattern Char × (List Char → PaletteCommand)) :=
  let word (w : String) (c : PaletteCommand) := (Pattern.word w.toList, fun _ => c)
  let lead (p : String) (f : String → PaletteCommand) :=
    (Pattern.lead p.toList, fun rest => f (String.ofList rest))
  [word "help" .help,
    word "quit" .quit,
    lead "stream " (.openUri 0),
    lead "http " (.openUri 1),
    lead "listen " (.openUri 2),
    lead "proxy " proxyOf,
    word "ca-path" .caPath,
    lead "diag " (.openUri 4),
    lead "capture " fun rest => .capture (trim rest),
    lead "open " fun rest => .openFile (trim rest),
    word "follow-tcp" .followTcp,
    word "follow-udp" .followUdp,
    word "follow-http" .followHttp,
    word "sniff" (.sniff none),
    lead "sniff " sniffOf,
    word "capture-http" (.sniff none),
    lead "capture-http " sniffOf,
    word "conversations" .conversations,
    word "endpoints" .endpoints,
    word "hierarchy" .hierarchy,
    word "expert" .expert,
    word "keylog" .keylog,
    lead "keylog " fun rest => .loadKeylog (trim rest),
    lead "save " fun rest => .save (some (trim rest)) false,
    word "save" (.save none false),
    word "save-all" (.save none true),
    word "inject" .inject,
    word "composer" .composer,
    word "replay-http" .replayHttp,
    word "names-toggle" .namesToggle,
    lead "cfilter " fun rest => .cfilter (trim rest),
    word "export-objects" .exportObjects,
    lead "run " fun rest => .run (trim rest),
    lead "env " fun rest => .env (trim rest),
    lead "import " fun rest => .importPath (trim rest),
    word "cookies on" (.cookies true),
    word "cookies off" (.cookies false),
    word "auth" .auth,
    word "body-mode" .bodyMode,
    word "history" .history,
    word "manuf-reload" .manufReload,
    word "manuf-status" .manufStatus,
    word "http-version" .httpVersion,
    word "grpc" .grpc,
    lead "grpc-desc " fun rest => .grpcDesc (trim rest),
    lead "grpc-type " fun rest => .grpcType (trim rest),
    word "gql-introspect" .gqlIntrospect,
    lead "rpcap " rpcapOf,
    lead "codegen " codegenOf,
    word "oauth" .oauth,
    word "fuzz" .fuzz,
    lead "pre-script " .setPreScript,
    word "pre-script" .preScript,
    word "pre-script-show" .preScript,
    word "pre-script-clear" .preScriptClear,
    lead "test " testOf,
    word "tests" .tests,
    word "test-clear" .testClear,
    lead "grpc-reply " fun rest => .grpcReply (trim rest),
    word "geoip-status" .geoipStatus]

/-- What is none of the commands may be a URI. -/
def paletteUri (cmd : String) : PaletteCommand :=
  if hasText cmd "://" then
    if hasPrefix cmd "http://" || hasPrefix cmd "https://" then .openUri 1 cmd else .openUri 0 cmd
  else
    match parseTarget cmd with
    | .ok (.http _ _) => .openUri 1 cmd
    | .ok _ => .openUri 0 cmd
    | .error _ => .unknown cmd

def runPaletteCommand (line : String) : PaletteCommand :=
  let cmd := trim line
  (firstMatch paletteArms cmd.toList).getD (paletteUri cmd)

theorem paletteArms_apart :
    paletteArms.Pairwise fun a b => a.1.Apart b.1 = true := by
  decide +kernel

/-- A word stands alone, and something visible begins and ends what is behind a lead. -/
def Given : Pattern Char → List Char → Prop
  | .word _, arg => arg = []
  | .lead _, arg => BoolText.Tight isWhitespace arg

/-- The ends of a word and the beginning of a lead are visible. -/
def visibleEnds : Pattern Char → Bool
  | .word w => w.head?.any (!isWhitespace ·) && w.getLast?.any (!isWhitespace ·)
  | .lead p => p.head?.any (!isWhitespace ·)

theorem paletteArms_visible : ∀ arm ∈ paletteArms, visibleEnds arm.1 = true := by
  decide +kernel

theorem tight_write {pat : Pattern Char} (visible : visibleEnds pat = true) {arg : List Char}
    (given : Given pat arg) : BoolText.Tight isWhitespace (pat.write arg) := by
  cases pat with
  | word w =>
    simp only [visibleEnds, Bool.and_eq_true, Option.any_eq_true, Bool.not_eq_true'] at visible
    exact ⟨visible.1, visible.2⟩
  | lead p =>
    simp only [visibleEnds, Option.any_eq_true, Bool.not_eq_true'] at visible
    obtain ⟨c, first, seen⟩ := visible
    obtain ⟨d, last, shown⟩ := given.last
    refine ⟨⟨c, ?_, seen⟩, ⟨d, ?_, shown⟩⟩
    · rw [Pattern.write, List.head?_append, first]
      rfl
    · rw [Pattern.write, List.getLast?_append, last]
      rfl

theorem runPaletteCommand_write {arm : Pattern Char × (List Char → PaletteCommand)}
    (member : arm ∈ paletteArms) {arg : List Char} (given : Given arm.1 arg) :
    runPaletteCommand (String.ofList (arm.1.write arg)) = arm.2 arg := by
  have whole : trim (String.ofList (arm.1.write arg)) = String.ofList (arm.1.write arg) :=
    trim_tight (by
      rw [String.toList_ofList]
      exact tight_write (paletteArms_visible arm member) given)
  have taken : arm.1.rest (arm.1.write arg) = some arg := by
    rw [Pattern.rest_eq_some]
    refine ⟨rfl, fun w is => ?_⟩
    rw [is] at given
    exact given
  rw [runPaletteCommand, whole, String.toList_ofList,
    (firstMatch_iff paletteArms_apart).mpr ⟨arm, member, arg, taken, rfl⟩]
  rfl

def PaletteCommand.isUnknown : PaletteCommand → Bool
  | .unknown _ => true
  | _ => false

open PaletteCommand in
theorem paletteArms_known : ∀ arm ∈ paletteArms, ∀ arg, (arm.2 arg).isUnknown = false := by
  have rpcap : ∀ rest, (rpcapOf rest).isUnknown = false := by
    intro rest
    unfold rpcapOf
    split <;> rfl
  have codegen : ∀ rest, (codegenOf rest).isUnknown = false := by
    intro rest
    unfold codegenOf
    dsimp only
    split <;> rfl
  have test : ∀ rest, (testOf rest).isUnknown = false := by
    intro rest
    unfold testOf
    dsimp only
    split <;> rfl
  simp only [paletteArms, List.forall_mem_cons, rpcap, codegen, test]
  simp [isUnknown, proxyOf, sniffOf]

/-- Every target has a mark in it, so that behind the test for one no target is left. -/
theorem parseTarget_marked {cmd : String} {target : Cli.Target} (read : parseTarget cmd = .ok target) :
    hasText cmd "://" = true := by
  obtain ⟨_, scheme, rest, found, _⟩ := parseTarget_ok read
  have within : (trim cmd).toList <:+: cmd.toList := by
    rw [trim, String.toList_ofList]
    exact (List.rdropWhile_prefix _ _).isInfix.trans (List.dropWhile_suffix _).isInfix
  rw [hasText_iff]
  refine List.IsInfix.trans ⟨scheme.toList, rest.toList, ?_⟩ within
  rw [splitOnceAt_eq_some found, String.toList_append, String.toList_append]

theorem paletteUri_eq_unknown (cmd cmd' : String) :
    paletteUri cmd = .unknown cmd' ↔ cmd' = cmd ∧ hasText cmd "://" = false := by
  unfold paletteUri
  by_cases marked : hasText cmd "://" = true
  · rw [if_pos marked, marked]
    split <;> simp
  · rw [if_neg marked]
    cases read : parseTarget cmd with
    | ok target => exact absurd (parseTarget_marked read) marked
    | error e => simp [marked, eq_comm]

end BitBeak.Ui
