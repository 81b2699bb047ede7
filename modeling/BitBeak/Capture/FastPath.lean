import BitBeak.Capture.Bpf

/-! Whether the in-kernel filter lets through every packet the userspace filter accepts.
A compiled program makes checks one after the other. A check that fails jumps over one
instruction only: behind it lies either the return that rejects, or the comparison of the
next check without its load, which then tests the word the failed check had read. -/
namespace BitBeak
open Wire SockFilter

/-- How a check ends: the program has answered, or a word of the packet was compared. -/
inductive Look where
  | settled (accepted : Bool)
  | tested (passed : Bool) (word : Nat)
  deriving DecidableEq, Repr

/-- A check that is handed a word compares that one and reads none from the packet. -/
abbrev Check := Option Nat → Look

namespace Check

/-- The word at a place of the packet is compared with a value; where the packet has no
such word it is rejected. -/
def equals (word : Option Nat) (value : UInt32) : Check := fun handed =>
  match handed.or word with
  | none => .settled false
  | some w => .tested (w = value.toNat) w

/-- One of two words has the value. Only the first comparison can be handed a word. -/
def either (first second : Option Nat) (value : UInt32) : Check := fun handed =>
  match equals first value handed with
  | .tested false _ => equals second value none
  | look => look

/-- A failed left check hands its word to the right one. -/
def both (left right : Check) : Check := fun handed =>
  match left handed with
  | .settled accepted => .settled accepted
  | .tested true _ => right none
  | .tested false w => right (some w)

def orElse (left right : Check) : Check := fun handed =>
  match left handed with
  | .settled accepted => .settled accepted
  | .tested true _ => .settled true
  | .tested false _ => right none

end Check

namespace Layout

variable (lay : Layout) (data : Bytes)

/-- Every atom starts with the frame's protocol, or with the address family. -/
def frameCheck : Check :=
  if lay.ethCheck then .equals (wordAt data lay.ethOff 2) 0x0800 else .equals (wordAt data 0 4) 2

def protoWord : Option Nat := wordAt data (lay.ip + 9) 1
def srcWord : Option Nat := wordAt data (lay.ip + 12) 4
def dstWord : Option Nat := wordAt data (lay.ip + 16) 4
def srcPortWord : Option Nat := wordAt data (lay.ip + 20) 2
def dstPortWord : Option Nat := wordAt data (lay.ip + 20 + 2) 2

/-- Ports are read behind a check for UDP. -/
def portCheck (port : UInt16) : Side → Check
  | .source => .both (.equals (lay.protoWord data) 17)
      (.equals (lay.srcPortWord data) port.toUInt32)
  | .destination => .both (.equals (lay.protoWord data) 17)
      (.equals (lay.dstPortWord data) port.toUInt32)
  | .either => .both (.equals (lay.protoWord data) 17)
      (.either (lay.srcPortWord data) (lay.dstPortWord data) port.toUInt32)

end Layout

namespace CaptureFilter

/-- The checks of a filter, in the order its program makes them. A `not` has the checks of
its operand. -/
def checks (lay : Layout) (data : Bytes) : CaptureFilter → Check
  | .proto p => match p with
    | "tcp" => .both (lay.frameCheck data) (.equals (lay.protoWord data) 6)
    | "udp" => .both (lay.frameCheck data) (.equals (lay.protoWord data) 17)
    | "icmp" => .both (lay.frameCheck data) (.equals (lay.protoWord data) 1)
    | _ => lay.frameCheck data
  | .host (.v4 v4) => .both (lay.frameCheck data)
      (.either (lay.srcWord data) (lay.dstWord data) (.ofBitVec v4))
  | .srcHost (.v4 v4) => .both (lay.frameCheck data) (.equals (lay.srcWord data) (.ofBitVec v4))
  | .dstHost (.v4 v4) => .both (lay.frameCheck data) (.equals (lay.dstWord data) (.ofBitVec v4))
  | .port p => .both (lay.frameCheck data) (lay.portCheck data p .either)
  | .srcPort p => .both (lay.frameCheck data) (lay.portCheck data p .source)
  | .dstPort p => .both (lay.frameCheck data) (lay.portCheck data p .destination)
  | .and a b => .both (a.checks lay data) (b.checks lay data)
  | .or a b => .orElse (a.checks lay data) (b.checks lay data)
  | .not f => f.checks lay data
  | _ => lay.frameCheck data

/-- Whether passing the last check accepts. A `not` in the left operand of `and` or `or` is
lost with the returns of that operand. -/
def upright : CaptureFilter → Bool
  | .not f => !f.upright
  | .and _ b | .or _ b => b.upright
  | _ => Bool.true

/-- What the checks of a filter say of a packet in the end. -/
def checksAccept (f : CaptureFilter) (lay : Layout) (data : Bytes) : Bool :=
  match f.checks lay data none with
  | .settled accepted => accepted
  | .tested passed _ => passed == f.upright

end CaptureFilter

/- Code that makes a check. -/

/-- Where control is behind code that made a check. -/
def Look.flow : Look → ForwardCode.Flow Nat Bool
  | .settled accepted => .stop accepted
  | .tested true w => .next 0 w
  | .tested false w => .next 1 w

/-- The code makes the check: run from its start it reads the packet, run from its second
instruction it uses the accumulator. -/
structure Makes (data : Bytes) (code : List SockFilter) (check : Check) : Prop where
  fresh : ∀ acc, ForwardCode.run (SockFilter.exec data) code 0 acc = (check none).flow
  handed : ∀ acc, ForwardCode.run (SockFilter.exec data) code 1 acc = (check (some acc)).flow

section Instructions

variable (data : Bytes) (acc : Nat)

def loadFlow (word : Option Nat) : ForwardCode.Flow Nat Bool :=
  match word with
  | some w => .next 0 w
  | none => .stop false

theorem exec_ld (off : UInt32) : (ld off).exec data acc = loadFlow (wordAt data off 4) := rfl
theorem exec_ldh (off : UInt32) : (ldh off).exec data acc = loadFlow (wordAt data off 2) := rfl
theorem exec_ldb (off : UInt32) : (ldb off).exec data acc = loadFlow (wordAt data off 1) := rfl

theorem exec_jeq (val : UInt32) (jt jf : UInt8) :
    (jeq val jt jf).exec data acc =
      .next (if acc = val.toNat then jt.toNat else jf.toNat) acc := rfl

end Instructions

namespace Makes

variable {data : Bytes} {word first second : Option Nat} {i j : SockFilter} {v : UInt32}
variable {code rest : List SockFilter} {left right : Check}

/-- A comparison that jumps over one instruction when it fails. -/
theorem compare (acc : Nat) (code : List SockFilter) :
    ForwardCode.run (SockFilter.exec data) (jeq v 0 1 :: code) 0 acc =
      (Look.tested (acc = v.toNat) acc).flow.andThen
        (ForwardCode.run (SockFilter.exec data) code) := by
  rw [ForwardCode.run_enter, exec_jeq]
  by_cases same : acc = v.toNat <;> simp [same, Look.flow]

theorem equals (load : ∀ acc, i.exec data acc = loadFlow word) :
    Makes data [i, jeq v 0 1] (.equals word v) := by
  constructor
  · intro acc
    rw [ForwardCode.run_enter, load]
    cases word with
    | none => rfl
    | some w =>
      simp only [loadFlow, ForwardCode.Flow.next_andThen, compare, Check.equals, Option.none_or]
      cases decide (w = v.toNat) <;> rfl
  · intro acc
    simp only [ForwardCode.run_skip, compare, Check.equals, Option.some_or]
    cases decide (acc = v.toNat) <;> rfl

theorem either (load : ∀ acc, i.exec data acc = loadFlow first)
    (load' : ∀ acc, j.exec data acc = loadFlow second) :
    Makes data [i, jeq v 2 0, j, jeq v 0 1] (.either first second v) := by
  have again : Makes data [j, jeq v 0 1] (.equals second v) := equals load'
  have compared : ∀ w, ForwardCode.run (SockFilter.exec data) [jeq v 2 0, j, jeq v 0 1] 0 w =
      (Check.either first second v (some w)).flow := by
    intro w
    rw [ForwardCode.run_enter, exec_jeq]
    by_cases same : w = v.toNat
    · simp [same, Check.either, Check.equals, Look.flow]
    · simpa [same, Check.either, Check.equals] using again.fresh w
  constructor
  · intro acc
    rw [ForwardCode.run_enter, load]
    cases first with
    | none => rfl
    | some w => exact compared w
  · exact compared

/-- The comparison with TCP that `push_port` makes first decides nothing. -/
theorem udp (load : ∀ acc, i.exec data acc = loadFlow word) :
    Makes data [i, jeq 6 0 0, jeq 17 0 1] (.equals word 17) := by
  have direct : Makes data [i, jeq 17 0 1] (.equals word 17) := equals load
  have tcp : ∀ acc, (jeq 6 0 0).exec data acc = .next 0 acc := by
    intro acc
    rw [exec_jeq]
    split <;> rfl
  constructor
  · intro acc
    rw [← direct.fresh acc, ForwardCode.run_enter, ForwardCode.run_enter, load]
    cases word with
    | none => rfl
    | some w => simp only [loadFlow, ForwardCode.Flow.next_andThen, ForwardCode.run_enter, tcp]
  · intro acc
    rw [← direct.handed acc]
    simp only [ForwardCode.run_skip, ForwardCode.run_enter, tcp, ForwardCode.Flow.next_andThen]

theorem both (first : Makes data code left) (second : Makes data rest right) :
    Makes data (code ++ rest) (.both left right) := by
  have composed : ∀ handed, (left handed).flow.andThen
      (ForwardCode.run (SockFilter.exec data) rest) = (Check.both left right handed).flow := by
    intro handed
    simp only [Check.both]
    match left handed with
    | .settled accepted => rfl
    | .tested true w => exact second.fresh w
    | .tested false w => exact second.handed w
  constructor
  · intro acc
    rw [ForwardCode.run_append, first.fresh, composed]
  · intro acc
    rw [ForwardCode.run_append, first.handed, composed]

theorem orElse (first : Makes data code left) (second : Makes data rest right) :
    Makes data (code ++ [ret u32Max] ++ rest) (.orElse left right) := by
  have composed : ∀ handed, (left handed).flow.andThen
      (ForwardCode.run (SockFilter.exec data) ([ret u32Max] ++ rest)) =
        (Check.orElse left right handed).flow := by
    intro handed
    simp only [Check.orElse]
    match left handed with
    | .settled accepted => rfl
    | .tested true w => rfl
    | .tested false w => exact second.fresh w
  constructor
  · intro acc
    rw [List.append_assoc, ForwardCode.run_append, first.fresh, composed]
  · intro acc
    rw [List.append_assoc, ForwardCode.run_append, first.handed, composed]

end Makes

/- What `compile_simple_bpf` emits: code that makes the filter's checks, and two returns. -/

def returns (upright : Bool) : List SockFilter :=
  if upright then [ret u32Max, ret 0] else [ret 0, ret u32Max]

theorem mergeAnd_returns (a b : List SockFilter) (up up' : Bool) :
    mergeAnd (a ++ returns up) (b ++ returns up') = some (a ++ b ++ returns up') := by
  cases up <;> cases up' <;> simp [mergeAnd, returns]

theorem mergeOr_returns (a b : List SockFilter) (up up' : Bool) :
    mergeOr (a ++ returns up) (b ++ returns up') =
      some (a ++ [ret u32Max] ++ b ++ returns up') := by
  cases up <;> cases up' <;> simp [mergeOr, returns]

theorem mergeNot_returns (a : List SockFilter) (up : Bool) :
    mergeNot (a ++ returns up) = some (a ++ returns (!up)) := by
  cases up <;> simp [mergeNot, returns]

/-- The program is code for the filter's checks with the returns behind it. -/
def Compiles (f : CaptureFilter) (lay : Layout) (prog : List SockFilter) : Prop :=
  ∃ code, prog = code ++ returns f.upright ∧ ∀ data, Makes data code (f.checks lay data)

/-- The check of the frame's protocol that the code of every atom starts with. -/
def Layout.frameCode (lay : Layout) : List SockFilter :=
  if lay.ethCheck then [ldh lay.ethOff, jeq 0x0800 0 1] else [ld 0, jeq 2 0 1]

theorem frame_makes (lay : Layout) (data : Bytes) :
    Makes data lay.frameCode (lay.frameCheck data) := by
  unfold Layout.frameCheck Layout.frameCode
  split
  · exact .equals (exec_ldh data · _)
  · exact .equals (exec_ld data · _)

theorem pushPort_makes (lay : Layout) (data : Bytes) (port : UInt16) (dir : Side) :
    Makes data (pushPort (lay.ip + 9) (lay.ip + 20) port dir) (lay.portCheck data port dir) := by
  have udp : Makes data [ldb (lay.ip + 9), jeq 6 0 0, jeq 17 0 1] _ := .udp (exec_ldb data · _)
  cases dir with
  | source => exact .both udp (.equals (exec_ldh data · _))
  | destination => exact .both udp (.equals (exec_ldh data · _))
  | either => exact .both udp (.either (exec_ldh data · _) (exec_ldh data · _))

/- What a composed filter is compiled from. -/

section

variable {a b : CaptureFilter} {link : LinkType} {prog : List SockFilter}

theorem compile_and (compiled : compileSimpleBpf (.and a b) link = some prog) :
    ∃ left, compileSimpleBpf a link = some left ∧
      ∃ right, compileSimpleBpf b link = some right ∧ mergeAnd left right = some prog := by
  unfold compileSimpleBpf at compiled
  split at compiled
  · cases compiled
  · obtain ⟨_, _, compiled⟩ := Option.bind_eq_some_iff.mp compiled
    simpa only [Option.bind_eq_bind, Option.bind_eq_some_iff] using compiled

theorem compile_or (compiled : compileSimpleBpf (.or a b) link = some prog) :
    ∃ left, compileSimpleBpf a link = some left ∧
      ∃ right, compileSimpleBpf b link = some right ∧ mergeOr left right = some prog := by
  unfold compileSimpleBpf at compiled
  split at compiled
  · cases compiled
  · obtain ⟨_, _, compiled⟩ := Option.bind_eq_some_iff.mp compiled
    simpa only [Option.bind_eq_bind, Option.bind_eq_some_iff] using compiled

theorem compile_not (compiled : compileSimpleBpf (.not a) link = some prog) :
    ∃ inner, compileSimpleBpf a link = some inner ∧ mergeNot inner = some prog := by
  unfold compileSimpleBpf at compiled
  split at compiled
  · cases compiled
  · obtain ⟨_, _, compiled⟩ := Option.bind_eq_some_iff.mp compiled
    simpa only [Option.bind_eq_bind, Option.bind_eq_some_iff] using compiled

end

/-- The code a filter is compiled to, and the polarity of the returns put behind it. -/
inductive Emits (lay : Layout) : CaptureFilter → List SockFilter → Bool → Prop where
  | all : Emits lay .true lay.frameCode true
  | ip : Emits lay (.proto "ip") lay.frameCode true
  | tcp : Emits lay (.proto "tcp") (lay.frameCode ++ [ldb (lay.ip + 9), jeq 6 0 1]) true
  | udp : Emits lay (.proto "udp") (lay.frameCode ++ [ldb (lay.ip + 9), jeq 17 0 1]) true
  | icmp : Emits lay (.proto "icmp") (lay.frameCode ++ [ldb (lay.ip + 9), jeq 1 0 1]) true
  | host (v4 : BitVec 32) : Emits lay (.host (.v4 v4)) (lay.frameCode ++
      [ld (lay.ip + 12), jeq (.ofBitVec v4) 2 0, ld (lay.ip + 16), jeq (.ofBitVec v4) 0 1]) true
  | srcHost (v4 : BitVec 32) : Emits lay (.srcHost (.v4 v4))
      (lay.frameCode ++ [ld (lay.ip + 12), jeq (.ofBitVec v4) 0 1]) true
  | dstHost (v4 : BitVec 32) : Emits lay (.dstHost (.v4 v4))
      (lay.frameCode ++ [ld (lay.ip + 16), jeq (.ofBitVec v4) 0 1]) true
  | port (p : UInt16) : Emits lay (.port p)
      (lay.frameCode ++ pushPort (lay.ip + 9) (lay.ip + 20) p .either) true
  | srcPort (p : UInt16) : Emits lay (.srcPort p)
      (lay.frameCode ++ pushPort (lay.ip + 9) (lay.ip + 20) p .source) true
  | dstPort (p : UInt16) : Emits lay (.dstPort p)
      (lay.frameCode ++ pushPort (lay.ip + 9) (lay.ip + 20) p .destination) true
  | and {a b : CaptureFilter} {code code' : List SockFilter} {up up' : Bool}
      (left : Emits lay a code up) (right : Emits lay b code' up') :
      Emits lay (.and a b) (code ++ code') up'
  | or {a b : CaptureFilter} {code code' : List SockFilter} {up up' : Bool}
      (left : Emits lay a code up) (right : Emits lay b code' up') :
      Emits lay (.or a b) (code ++ [ret u32Max] ++ code') up'
  | not {f : CaptureFilter} {code : List SockFilter} {up : Bool}
      (inner : Emits lay f code up) : Emits lay (.not f) code (!up)

/-- Every program is what its filter emits, with two returns behind it. -/
theorem compile_emits {f : CaptureFilter} {link : LinkType} {lay : Layout}
    {prog : List SockFilter} (supported : layout link = some lay)
    (compiled : compileSimpleBpf f link = some prog) :
    ∃ code up, prog = code ++ returns up ∧ Emits lay f code up := by
  induction f generalizing prog with
  | true =>
    simp only [compileSimpleBpf, supported] at compiled
    cases compiled
    exact ⟨_, true, rfl, .all⟩
  | proto p =>
    simp only [compileSimpleBpf, supported] at compiled
    split at compiled
    · cases compiled
    · split at compiled
      · cases compiled
        exact ⟨_, true, rfl, .tcp⟩
      · cases compiled
        exact ⟨_, true, rfl, .udp⟩
      · cases compiled
        exact ⟨_, true, rfl, .icmp⟩
      · cases compiled
        exact ⟨_, true, rfl, .ip⟩
      · cases compiled
  | host ip =>
    cases ip with
    | v6 => cases compiled
    | v4 v4 =>
      simp only [compileSimpleBpf, supported] at compiled
      cases compiled
      exact ⟨_, true, rfl, .host v4⟩
  | srcHost ip =>
    cases ip with
    | v6 => cases compiled
    | v4 v4 =>
      simp only [compileSimpleBpf, supported] at compiled
      cases compiled
      exact ⟨_, true, rfl, .srcHost v4⟩
  | dstHost ip =>
    cases ip with
    | v6 => cases compiled
    | v4 v4 =>
      simp only [compileSimpleBpf, supported] at compiled
      cases compiled
      exact ⟨_, true, rfl, .dstHost v4⟩
  | port p =>
    simp only [compileSimpleBpf, supported] at compiled
    cases compiled
    exact ⟨_, true, rfl, .port p⟩
  | srcPort p =>
    simp only [compileSimpleBpf, supported] at compiled
    cases compiled
    exact ⟨_, true, rfl, .srcPort p⟩
  | dstPort p =>
    simp only [compileSimpleBpf, supported] at compiled
    cases compiled
    exact ⟨_, true, rfl, .dstPort p⟩
  | net addr mask => cases compiled
  | and a b iha ihb =>
    obtain ⟨left, first, right, second, merged⟩ := compile_and compiled
    obtain ⟨code, up, rfl, emits⟩ := iha first
    obtain ⟨code', up', rfl, emits'⟩ := ihb second
    rw [mergeAnd_returns] at merged
    cases merged
    exact ⟨_, up', rfl, .and emits emits'⟩
  | or a b iha ihb =>
    obtain ⟨left, first, right, second, merged⟩ := compile_or compiled
    obtain ⟨code, up, rfl, emits⟩ := iha first
    obtain ⟨code', up', rfl, emits'⟩ := ihb second
    rw [mergeOr_returns] at merged
    cases merged
    exact ⟨_, up', rfl, .or emits emits'⟩
  | not f ih =>
    obtain ⟨inner, operand, merged⟩ := compile_not compiled
    obtain ⟨code, up, rfl, emits⟩ := ih operand
    rw [mergeNot_returns] at merged
    cases merged
    exact ⟨_, !up, rfl, .not emits⟩

theorem Emits.upright {f : CaptureFilter} {lay : Layout} {code : List SockFilter} {up : Bool}
    (emits : Emits lay f code up) : up = f.upright := by
  induction emits with
  | and left right ihl ihr => exact ihr
  | or left right ihl ihr => exact ihr
  | not inner ih => rw [ih, CaptureFilter.upright]
  | _ => rfl

theorem Emits.makes {f : CaptureFilter} {lay : Layout} {code : List SockFilter} {up : Bool}
    (emits : Emits lay f code up) (data : Bytes) : Makes data code (f.checks lay data) := by
  induction emits with
  | all | ip => exact frame_makes lay data
  | tcp | udp | icmp => exact .both (frame_makes lay data) (.equals (exec_ldb data · _))
  | host v4 =>
    exact .both (frame_makes lay data) (.either (exec_ld data · _) (exec_ld data · _))
  | srcHost v4 | dstHost v4 =>
    exact .both (frame_makes lay data) (.equals (exec_ld data · _))
  | port p => exact .both (frame_makes lay data) (pushPort_makes lay data p .either)
  | srcPort p => exact .both (frame_makes lay data) (pushPort_makes lay data p .source)
  | dstPort p => exact .both (frame_makes lay data) (pushPort_makes lay data p .destination)
  | and left right ihl ihr => exact ihl.both ihr
  | or left right ihl ihr => exact ihl.orElse ihr
  | not inner ih => exact ih

theorem compile_compiles {f : CaptureFilter} {link : LinkType} {lay : Layout}
    {prog : List SockFilter} (supported : layout link = some lay)
    (compiled : compileSimpleBpf f link = some prog) : Compiles f lay prog := by
  obtain ⟨code, up, rfl, emits⟩ := compile_emits supported compiled
  exact ⟨code, by rw [emits.upright], emits.makes⟩

/-- A program accepts what its checks say. -/
theorem Compiles.accepts {f : CaptureFilter} {lay : Layout} {prog : List SockFilter}
    (compiles : Compiles f lay prog) (data : Bytes) :
    bpfAccepts prog data = f.checksAccept lay data := by
  obtain ⟨code, rfl, makes⟩ := compiles
  rw [bpfAccepts, ForwardCode.run_append, (makes data).fresh, CaptureFilter.checksAccept]
  obtain accepted | ⟨passed, w⟩ := f.checks lay data none
  · rfl
  · cases f.upright <;> cases passed <;> rfl

/-- An IPv4 frame with its protocol and the two ports behind a header of 20 bytes. -/
def ipv4Frame (proto : UInt8) (ports : Bytes) : Bytes :=
  List.replicate 12 0 ++ [0x08, 0x00, 0x45] ++ List.replicate 8 0 ++ [proto] ++
    List.replicate 10 0 ++ ports

end BitBeak
