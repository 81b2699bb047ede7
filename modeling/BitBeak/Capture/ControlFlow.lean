import BitBeak.Capture.Attach

/-! Control in the programs that capture filters are compiled to. The code of a filter ends
in two returns, and a jump of it reaches one of these at the furthest. A merge takes the
returns away or changes their places: the jumps that went to them then go to what has come
behind the code, which is a return and more, or a program of its own. -/
namespace BitBeak
open Wire SockFilter

namespace SockFilter

def IsJump (insn : SockFilter) : Prop := insn.code = bpfJmp ||| bpfJeq ||| bpfK

def IsReturn (insn : SockFilter) : Prop := insn.code = bpfRet ||| bpfK

instance (insn : SockFilter) : Decidable insn.IsJump := inferInstanceAs (Decidable (_ = _))
instance (insn : SockFilter) : Decidable insn.IsReturn := inferInstanceAs (Decidable (_ = _))

/-- A load of some octets from a place of the packet. -/
inductive Loads : SockFilter → Nat → Prop where
  | ld (off : UInt32) : Loads (ld off) 4
  | ldh (off : UInt32) : Loads (ldh off) 2
  | ldb (off : UInt32) : Loads (ldb off) 1

/-- The instruction loads octets the packet does not have. -/
def LoadsOutside (data : Bytes) (insn : SockFilter) : Prop :=
  ∃ width, insn.Loads width ∧ wordAt data insn.k width = none

variable {insn : SockFilter} {width : Nat}

theorem Loads.builds (load : insn.Loads width) : ∃ op, insn.Builds op := by
  cases load with
  | ld off => exact ⟨_, .ld off⟩
  | ldh off => exact ⟨_, .ldh off⟩
  | ldb off => exact ⟨_, .ldb off⟩

theorem Loads.not_jump (load : insn.Loads width) : ¬ insn.IsJump := by
  intro jump
  cases load <;> cases jump

theorem Loads.not_return (load : insn.Loads width) : ¬ insn.IsReturn := by
  intro returned
  cases load <;> cases returned

theorem Loads.exec (load : insn.Loads width) (data : Bytes) (acc : Nat) :
    insn.exec data acc = loadFlow (wordAt data insn.k width) := by
  cases load <;> rfl

theorem Builds.sorts {op : Operation} (builds : insn.Builds op) :
    (∃ width, insn.Loads width) ∨ (∃ val jt jf, insn = SockFilter.jeq val jt jf) ∨
      ∃ val, insn = SockFilter.ret val := by
  cases builds with
  | ldh off => exact .inl ⟨2, .ldh off⟩
  | ldb off => exact .inl ⟨1, .ldb off⟩
  | ld off => exact .inl ⟨4, .ld off⟩
  | jeq val jt jf => exact .inr (.inl ⟨val, jt, jf, rfl⟩)
  | ret val => exact .inr (.inr ⟨val, rfl⟩)

theorem ret_not_jump (val : UInt32) : ¬ (ret val).IsJump := by
  intro jump
  cases jump

end SockFilter

/-- Both targets of every jump, counted from the next instruction, are in the program. -/
def JumpsInside (prog : List SockFilter) : Prop :=
  ∀ pc insn, prog[pc]? = some insn → insn.IsJump →
    pc + 1 + insn.jt.toNat < prog.length ∧ pc + 1 + insn.jf.toNat < prog.length

/-- The program under a program counter, from its first instruction on. -/
def afterSteps (prog : List SockFilter) (data : Bytes) (n : Nat) : ForwardCode.Control Nat Bool :=
  (ForwardCode.advance (SockFilter.exec data) prog)^[n] (.running 0 0)

/-- Every jump lands in the code or on one of the `behind` instructions after it. -/
def Lands (behind : Nat) : List SockFilter → Prop
  | [] => True
  | insn :: code =>
    (insn.IsJump → insn.jt.toNat < code.length + behind ∧ insn.jf.toNat < code.length + behind) ∧
      Lands behind code

theorem lands_append (behind : Nat) (a b : List SockFilter) :
    Lands behind (a ++ b) ↔ Lands (b.length + behind) a ∧ Lands behind b := by
  induction a with
  | nil => simp [Lands]
  | cons insn a ih =>
    simp only [List.cons_append, Lands, ih, List.length_append, Nat.add_assoc, and_assoc]

theorem Lands.mono {behind more : Nat} (le : behind ≤ more) {code : List SockFilter}
    (lands : Lands behind code) : Lands more code := by
  induction code with
  | nil => trivial
  | cons insn code ih =>
    obtain ⟨here, rest⟩ := lands
    refine ⟨fun jump => ?_, ih rest⟩
    obtain ⟨taken, passed⟩ := here jump
    constructor <;> omega

theorem Lands.target {behind : Nat} {code : List SockFilter} (lands : Lands behind code)
    {pc : Nat} {insn : SockFilter} (here : code[pc]? = some insn) (jump : insn.IsJump) :
    pc + 1 + insn.jt.toNat < code.length + behind ∧
      pc + 1 + insn.jf.toNat < code.length + behind := by
  induction code generalizing pc with
  | nil => cases here
  | cons first code ih =>
    cases pc with
    | zero =>
      cases here
      obtain ⟨taken, passed⟩ := lands.1 jump
      rw [List.length_cons]
      constructor <;> omega
    | succ pc =>
      obtain ⟨taken, passed⟩ := ih lands.2 here
      rw [List.length_cons]
      constructor <;> omega

/-- Code to put two returns behind: its jumps reach the second of them at most. -/
structure OpenCode (code : List SockFilter) : Prop where
  built : ∀ insn ∈ code, ∃ op, insn.Builds op
  lands : Lands 2 code

namespace OpenCode

variable {i j : SockFilter} {width width' : Nat} {v : UInt32} {a b : List SockFilter}

theorem append (first : OpenCode a) (second : OpenCode b) : OpenCode (a ++ b) := by
  constructor
  · intro insn member
    rcases List.mem_append.mp member with left | right
    · exact first.built insn left
    · exact second.built insn right
  · rw [lands_append]
    exact ⟨first.lands.mono (Nat.le_add_left 2 b.length), second.lands⟩

theorem one_return (val : UInt32) : OpenCode [ret val] := by
  constructor
  · simpa using ⟨_, Builds.ret val⟩
  · simp [Lands, ret_not_jump]

theorem check (load : i.Loads width) : OpenCode [i, jeq v 0 1] := by
  constructor
  · simpa [load.builds] using ⟨_, Builds.jeq v 0 1⟩
  · simp [Lands, load.not_jump, jeq]

/-- The first comparison jumps over the second check when it succeeds. -/
theorem either (load : i.Loads width) (load' : j.Loads width') :
    OpenCode [i, jeq v 2 0, j, jeq v 0 1] := by
  constructor
  · simpa [load.builds, load'.builds] using ⟨⟨_, Builds.jeq v 2 0⟩, _, Builds.jeq v 0 1⟩
  · simp [Lands, load.not_jump, load'.not_jump, jeq]

theorem port (proto l4 : UInt32) (port : UInt16) (dir : Side) :
    OpenCode (pushPort proto l4 port dir) := by
  have protocol : OpenCode [ldb proto, jeq 6 0 0, jeq 17 0 1] := by
    constructor
    · simpa using ⟨⟨_, Builds.ldb proto⟩, ⟨_, Builds.jeq 6 0 0⟩, _, Builds.jeq 17 0 1⟩
    · simp [Lands, (Loads.ldb proto).not_jump, jeq]
  cases dir with
  | source => exact protocol.append (check (.ldh l4))
  | destination => exact protocol.append (check (.ldh (l4 + 2)))
  | either => exact protocol.append (either (.ldh l4) (.ldh (l4 + 2)))

theorem frame (lay : Layout) : OpenCode lay.frameCode := by
  unfold Layout.frameCode
  split
  · exact check (.ldh lay.ethOff)
  · exact check (.ld 0)

/-- Whatever is merged, the code stays one to put returns behind. -/
theorem of_emits {f : CaptureFilter} {lay : Layout} {code : List SockFilter} {up : Bool}
    (emits : Emits lay f code up) : OpenCode code := by
  induction emits with
  | all | ip => exact frame lay
  | tcp | udp | icmp => exact (frame lay).append (check (.ldb _))
  | host v4 => exact (frame lay).append (either (.ld _) (.ld _))
  | srcHost v4 | dstHost v4 => exact (frame lay).append (check (.ld _))
  | port p => exact (frame lay).append (port _ _ p .either)
  | srcPort p => exact (frame lay).append (port _ _ p .source)
  | dstPort p => exact (frame lay).append (port _ _ p .destination)
  | and left right ihl ihr => exact ihl.append ihr
  | or left right ihl ihr => exact (ihl.append (one_return u32Max)).append ihr
  | not inner ih => exact ih

end OpenCode

/-- The program is code with two returns behind it. -/
def ClosedByReturns (prog : List SockFilter) : Prop :=
  ∃ code up, prog = code ++ returns up ∧ OpenCode code

theorem compile_closed {f : CaptureFilter} {link : LinkType} {prog : List SockFilter}
    (compiled : compileSimpleBpf f link = some prog) : ClosedByReturns prog := by
  obtain ⟨lay, supported⟩ := compile_supported compiled
  obtain ⟨code, up, rfl, emits⟩ := compile_emits supported compiled
  exact ⟨code, up, rfl, .of_emits emits⟩

theorem mem_returns {insn : SockFilter} {up : Bool} (member : insn ∈ returns up) :
    insn = ret u32Max ∨ insn = ret 0 := by
  cases up with
  | true => simpa [returns] using member
  | false => simpa [returns, or_comm] using member

theorem ClosedByReturns.built {prog : List SockFilter} (closed : ClosedByReturns prog) :
    ∀ insn ∈ prog, ∃ op, insn.Builds op := by
  obtain ⟨code, up, rfl, body⟩ := closed
  intro insn member
  rcases List.mem_append.mp member with inner | behind
  · exact body.built insn inner
  · rcases mem_returns behind with rfl | rfl
    · exact ⟨_, .ret u32Max⟩
    · exact ⟨_, .ret 0⟩

theorem ClosedByReturns.jumpsInside {prog : List SockFilter} (closed : ClosedByReturns prog) :
    JumpsInside prog := by
  obtain ⟨code, up, rfl, body⟩ := closed
  have returning : Lands 0 (returns up) := by
    cases up <;> simp [returns, Lands, ret_not_jump]
  have lands : Lands 0 (code ++ returns up) := by
    rw [lands_append, length_returns]
    exact ⟨body.lands, returning⟩
  exact fun pc insn here jump => lands.target here jump

theorem ClosedByReturns.endsInReturn {prog : List SockFilter} (closed : ClosedByReturns prog) :
    ∃ last, prog.getLast? = some last ∧ last.IsReturn := by
  obtain ⟨code, up, rfl, body⟩ := closed
  cases up with
  | true => exact ⟨ret 0, by simp [returns], rfl⟩
  | false => exact ⟨ret u32Max, by simp [returns], rfl⟩

/-- An instruction stops control only as a return or as a load outside the packet. -/
theorem SockFilter.Builds.stops {insn : SockFilter} {op : Operation} (builds : insn.Builds op)
    {data : Bytes} {acc : Nat} {accepted : Bool} (stopped : insn.exec data acc = .stop accepted) :
    (insn.IsReturn ∧ accepted = (insn.k != 0)) ∨ (insn.LoadsOutside data ∧ accepted = false) := by
  rcases builds.sorts with ⟨width, load⟩ | ⟨val, jt, jf, rfl⟩ | ⟨val, rfl⟩
  · rw [load.exec] at stopped
    cases found : wordAt data insn.k width with
    | some w =>
      rw [found] at stopped
      cases stopped
    | none =>
      rw [found] at stopped
      cases stopped
      exact .inr ⟨⟨width, load, found⟩, rfl⟩
  · cases stopped
  · cases stopped
    exact .inl ⟨rfl, rfl⟩

/-- An instruction that lets control go on is no return, and only a jump skips others. -/
theorem SockFilter.Builds.goes {insn : SockFilter} {op : Operation} (builds : insn.Builds op)
    {data : Bytes} {acc acc' skip : Nat} (goes : insn.exec data acc = .next skip acc') :
    ¬ insn.IsReturn ∧
      (skip = 0 ∨ insn.IsJump ∧ (skip = insn.jt.toNat ∨ skip = insn.jf.toNat)) := by
  rcases builds.sorts with ⟨width, load⟩ | ⟨val, jt, jf, rfl⟩ | ⟨val, rfl⟩
  · rw [load.exec] at goes
    cases found : wordAt data insn.k width with
    | some w =>
      rw [found] at goes
      cases goes
      exact ⟨load.not_return, .inl rfl⟩
    | none =>
      rw [found] at goes
      cases goes
  · rw [exec_jeq] at goes
    cases goes
    refine ⟨nofun, .inr ⟨rfl, ?_⟩⟩
    split
    · exact .inl rfl
    · exact .inr rfl
  · cases goes

theorem ClosedByReturns.forward {prog : List SockFilter} (closed : ClosedByReturns prog)
    (data : Bytes) : ForwardCode.Closed (SockFilter.exec data) prog := by
  intro pc insn here acc skip acc' goes
  have inside : pc < prog.length := (List.getElem?_eq_some_iff.mp here).1
  obtain ⟨op, builds⟩ := closed.built insn (List.mem_of_getElem? here)
  obtain ⟨going, rfl | ⟨jump, target⟩⟩ := builds.goes goes
  · -- what does not return is not the last instruction
    obtain ⟨last, ends, returned⟩ := closed.endsInReturn
    by_contra past
    have final : pc = prog.length - 1 := by omega
    rw [List.getLast?_eq_getElem?, ← final, here] at ends
    cases ends
    exact going returned
  · obtain ⟨taken, passed⟩ := closed.jumpsInside pc insn here jump
    rcases target with rfl | rfl
    · exact taken
    · exact passed

theorem ClosedByReturns.nonempty {prog : List SockFilter} (closed : ClosedByReturns prog) :
    0 < prog.length := by
  obtain ⟨code, up, rfl, body⟩ := closed
  simp [length_returns]

/-- Control in a compiled program never leaves it: it ends at a return, or at a load that the
packet is too short for, and there with the answer of the program. -/
theorem compiled_control_stays {f : CaptureFilter} {link : LinkType} {prog : List SockFilter}
    (compiled : compileSimpleBpf f link = some prog) :
    JumpsInside prog ∧ (∃ last, prog.getLast? = some last ∧ last.IsReturn) ∧
      ∀ data, ∃ n ≤ prog.length, ∃ pc insn, prog[pc]? = some insn ∧
        afterSteps prog data n = .stopped pc (bpfAccepts prog data) ∧
          ((insn.IsReturn ∧ bpfAccepts prog data = (insn.k != 0)) ∨
            (insn.LoadsOutside data ∧ bpfAccepts prog data = false)) := by
  have closed := compile_closed compiled
  refine ⟨closed.jumpsInside, closed.endsInReturn, fun data => ?_⟩
  obtain ⟨n, few, pc, insn, acc, accepted, here, stopped, ran⟩ :=
    (closed.forward data).stops 0 0 closed.nonempty
  have answer : bpfAccepts prog data = accepted := by
    rw [bpfAccepts, ForwardCode.run_eq_of_stopped ran]
  obtain ⟨op, builds⟩ := closed.built insn (List.mem_of_getElem? here)
  rw [← answer] at ran stopped
  exact ⟨n, few, pc, insn, here, ran, builds.stops stopped⟩

/-- What `tcp or not udp` compiles to: the checks that failed of the left operand jump over
its return, into the program of the right one. -/
def tcpOrNotUdp : List SockFilter :=
  [ldh 12, jeq 0x0800 0 1, ldb 23, jeq 6 0 1, ret u32Max,
    ldh 12, jeq 0x0800 0 1, ldb 23, jeq 17 0 1, ret 0, ret u32Max]

theorem tcp_or_not_udp_stays : JumpsInside tcpOrNotUdp ∧
    ∃ n ≤ 11, ∃ pc insn, tcpOrNotUdp[pc]? = some insn ∧
      afterSteps tcpOrNotUdp (ipv4Frame 6 []) n =
          .stopped pc (bpfAccepts tcpOrNotUdp (ipv4Frame 6 [])) ∧
        ((insn.IsReturn ∧ bpfAccepts tcpOrNotUdp (ipv4Frame 6 []) = (insn.k != 0)) ∨
          (insn.LoadsOutside (ipv4Frame 6 []) ∧
            bpfAccepts tcpOrNotUdp (ipv4Frame 6 []) = false)) := by
  have compiled : compileSimpleBpf (.or (.proto "tcp") (.not (.proto "udp"))) .ethernet =
      some tcpOrNotUdp := by
    decide
  obtain ⟨inside, _, stays⟩ := compiled_control_stays compiled
  exact ⟨inside, stays (ipv4Frame 6 [])⟩

/-- A packet with no octets is turned away where the frame's protocol is loaded. -/
theorem empty_packet_ends_at_load :
    ¬ ∀ (f : CaptureFilter) (link : LinkType) (prog : List SockFilter),
      compileSimpleBpf f link = some prog → ∀ data, ∃ n ≤ prog.length, ∃ pc insn answer,
        prog[pc]? = some insn ∧ afterSteps prog data n = .stopped pc answer ∧ insn.IsReturn := by
  intro all
  obtain ⟨n, few, pc, insn, answer, here, stopped, returned⟩ :=
    all (.proto "tcp") .ethernet LinuxCapture.tcpProgram (by decide) []
  cases n with
  | zero => cases stopped
  | succ n =>
    have first : ForwardCode.advance (SockFilter.exec []) LinuxCapture.tcpProgram
        (.running 0 0) = .stopped 0 false := rfl
    rw [afterSteps, Function.iterate_succ_apply, first,
      Function.iterate_fixed (ForwardCode.advance_stopped _ 0 false)] at stopped
    cases stopped
    cases here
    cases returned

end BitBeak
