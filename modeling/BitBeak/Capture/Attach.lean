import BitBeak.Capture.FastPath

/-! The programs that a Linux capture hands to `SO_ATTACH_FILTER`, in the numbers that the
kernel reads. -/
namespace BitBeak
open SockFilter

/-- What the constructors of instructions are named for. -/
inductive Operation where
  | loadHalf
  | loadByte
  | loadWord
  | jumpEqual
  | ret
  deriving DecidableEq, Repr

/-- The code of an operation in the kernel's classic BPF: class, size and mode. -/
def Operation.kernelCode : Operation → UInt16
  | loadHalf => 0x28
  | loadByte => 0x30
  | loadWord => 0x20
  | jumpEqual => 0x15
  | ret => 0x06

/-- The operation an instruction is made for. -/
inductive SockFilter.Builds : SockFilter → Operation → Prop where
  | ldh (off : UInt32) : Builds (ldh off) .loadHalf
  | ldb (off : UInt32) : Builds (ldb off) .loadByte
  | ld (off : UInt32) : Builds (ld off) .loadWord
  | jeq (val : UInt32) (jt jf : UInt8) : Builds (jeq val jt jf) .jumpEqual
  | ret (val : UInt32) : Builds (ret val) .ret

def SockFilter.WellCoded (insn : SockFilter) : Prop :=
  ∃ op, insn.Builds op ∧ insn.code = op.kernelCode

/-- The length is a `u16`; the pointer is the array it points to. -/
structure SockFprog where
  len : UInt16
  filter : List SockFilter
  deriving DecidableEq, Repr

/-- `BPF_MAXINSNS` of the kernel. -/
def maxInsns : Nat := 4096

structure SockFprog.KernelValid (p : SockFprog) : Prop where
  coded : ∀ insn ∈ p.filter, insn.WellCoded
  short : p.filter.length ≤ maxInsns
  whole : p.len.toNat = p.filter.length

/- The capture. -/

inductive SockOpt where
  | attachFilter (prog : SockFprog)
  | detachFilter
  deriving DecidableEq, Repr

/-- `issued` is what was handed to `setsockopt`. -/
structure LinuxCapture where
  ifindex : Nat
  linkType : LinkType
  bpfProg : Option (List SockFilter)
  issued : List SockOpt

namespace LinuxCapture

section

variable (kernel : SockOpt → Bool) (ifNametoindex : String → Option Nat)

def attachBpf (prog : List SockFilter) (c : LinuxCapture) : LinuxCapture × Bool :=
  let opt := .attachFilter { len := .ofNat prog.length, filter := prog }
  ({ c with issued := c.issued ++ [opt] }, kernel opt)

def detachBpf (c : LinuxCapture) : LinuxCapture × Bool :=
  if c.bpfProg.isNone then (c, true)
  else
    let c := { c with issued := c.issued ++ [.detachFilter] }
    if kernel .detachFilter then ({ c with bpfProg := none }, true) else (c, false)

def setFilter (filter : CaptureFilter) (c : LinuxCapture) : LinuxCapture × Bool :=
  let (c, detached) := c.detachBpf kernel
  if !detached then (c, false)
  else if filter = .true then (c, true)
  else
    match compileSimpleBpf filter c.linkType with
    | some prog =>
      let (c, attached) := c.attachBpf kernel prog
      if attached then ({ c with bpfProg := some prog }, true) else (c, false)
    | none => (c, true)

def bound (name : String) : Option LinuxCapture :=
  if name = "any" then some { ifindex := 0, linkType := .linuxSll, bpfProg := none, issued := [] }
  else (ifNametoindex name).map fun idx =>
    { ifindex := idx, linkType := .ethernet, bpfProg := none, issued := [] }

/-- A capture that was opened, and the filters it was given since. -/
inductive Opened : LinuxCapture → Prop where
  | bound {name : String} {c : LinuxCapture} (made : bound ifNametoindex name = some c) : Opened c
  | filtered {c : LinuxCapture} (opened : Opened c) (filter : CaptureFilter) :
      Opened (c.setFilter kernel filter).1

end

end LinuxCapture

/- Which instructions have the kernel's codes. -/

namespace SockFilter

theorem ld_wellCoded (off : UInt32) : (ld off).WellCoded := ⟨_, .ld off, rfl⟩
theorem jeq_wellCoded (val : UInt32) (jt jf : UInt8) : (jeq val jt jf).WellCoded :=
  ⟨_, .jeq val jt jf, rfl⟩
theorem ret_wellCoded (val : UInt32) : (ret val).WellCoded := ⟨_, .ret val, rfl⟩

theorem not_wellCoded {insn : SockFilter} {code : UInt16} (written : insn.code = code)
    (none : ∀ op : Operation, code ≠ op.kernelCode) : ¬ insn.WellCoded := by
  rintro ⟨op, _, same⟩
  exact none op (written ▸ same)

theorem ldh_not_wellCoded (off : UInt32) : ¬ (ldh off).WellCoded :=
  @not_wellCoded _ 0x21 rfl (by intro op; cases op <;> decide)

theorem ldb_not_wellCoded (off : UInt32) : ¬ (ldb off).WellCoded :=
  @not_wellCoded _ 0x22 rfl (by intro op; cases op <;> decide)

end SockFilter

def AllCoded (insns : List SockFilter) : Prop := ∀ insn ∈ insns, insn.WellCoded

theorem allCoded_append (a b : List SockFilter) : AllCoded (a ++ b) ↔ AllCoded a ∧ AllCoded b :=
  List.forall_mem_append

theorem allCoded_returns (up : Bool) : AllCoded (returns up) := by
  cases up <;> simp [returns, AllCoded, ret_wellCoded]

/- Programs of word loads. -/

namespace CaptureFilter

/-- No atom of the filter looks at a protocol number or a port. -/
def onlyWords : CaptureFilter → Bool
  | .proto p => p = "ip"
  | .port _ | .srcPort _ | .dstPort _ => false
  | .and a b | .or a b => a.onlyWords && b.onlyWords
  | .not f => f.onlyWords
  | _ => Bool.true

/-- How many instructions a filter that compiles is compiled to. -/
def programLength : CaptureFilter → Nat
  | .proto p => if p = "ip" then 4 else 6
  | .host _ => 8
  | .srcHost _ | .dstHost _ => 6
  | .port _ => 11
  | .srcPort _ | .dstPort _ => 9
  | .and a b => a.programLength + b.programLength - 2
  | .or a b => a.programLength + b.programLength - 1
  | .not f => f.programLength
  | _ => 4

end CaptureFilter

/-- What a filter's program is made of. -/
structure Shaped (f : CaptureFilter) (link : LinkType) (prog : List SockFilter) : Prop where
  ends : ∃ code up, prog = code ++ returns up
  coded : AllCoded prog ↔ link = .null ∧ f.onlyWords = true
  length : prog.length = f.programLength

/-- The first load of a program is of a word for one link type only. -/
theorem frame_coded {link : LinkType} {lay : Layout} (supported : layout link = some lay) :
    AllCoded lay.frameCode ↔ link = .null := by
  cases link <;> cases supported <;>
    simp [AllCoded, Layout.frameCode, ldh_not_wellCoded, ld_wellCoded, jeq_wellCoded]

/-- An atom adds code of its own behind the check of the frame. -/
theorem atom_coded {link : LinkType} {lay : Layout} {code : List SockFilter} {words : Bool}
    (supported : layout link = some lay) (coded : AllCoded code ↔ words = true) :
    AllCoded (lay.frameCode ++ code) ↔ link = .null ∧ words = true := by
  rw [allCoded_append, frame_coded supported, coded]

theorem length_frameCode (lay : Layout) : lay.frameCode.length = 2 := by
  unfold Layout.frameCode
  split <;> rfl

theorem length_returns (up : Bool) : (returns up).length = 2 := by
  cases up <;> rfl

theorem compile_supported {f : CaptureFilter} {link : LinkType} {prog : List SockFilter}
    (compiled : compileSimpleBpf f link = some prog) : ∃ lay, layout link = some lay := by
  unfold compileSimpleBpf at compiled
  cases found : layout link with
  | some lay => exact ⟨lay, rfl⟩
  | none =>
    rw [found] at compiled
    split at compiled <;> cases compiled

theorem Emits.coded {f : CaptureFilter} {link : LinkType} {lay : Layout} {code : List SockFilter}
    {up : Bool} (supported : layout link = some lay) (emits : Emits lay f code up) :
    AllCoded code ↔ link = .null ∧ f.onlyWords = true := by
  induction emits with
  | all | ip => simp [frame_coded supported, CaptureFilter.onlyWords]
  | tcp | udp | icmp =>
    exact atom_coded supported (by simp [AllCoded, CaptureFilter.onlyWords, ldb_not_wellCoded])
  | host v4 | srcHost v4 | dstHost v4 =>
    apply atom_coded supported
    simp [AllCoded, CaptureFilter.onlyWords, ld_wellCoded, jeq_wellCoded]
  | port p | srcPort p | dstPort p =>
    apply atom_coded supported
    simp [AllCoded, CaptureFilter.onlyWords, pushPort, ldb_not_wellCoded]
  | and left right ihl ihr =>
    rw [allCoded_append, ihl, ihr, CaptureFilter.onlyWords, Bool.and_eq_true]
    exact (and_and_left).symm
  | or left right ihl ihr =>
    have one : AllCoded [ret u32Max] := by simp [AllCoded, ret_wellCoded]
    rw [allCoded_append, allCoded_append, and_iff_left one, ihl, ihr, CaptureFilter.onlyWords,
      Bool.and_eq_true]
    exact (and_and_left).symm
  | not inner ih => exact ih

theorem Emits.length {f : CaptureFilter} {lay : Layout} {code : List SockFilter} {up : Bool}
    (emits : Emits lay f code up) : code.length + 2 = f.programLength := by
  induction emits with
  | and left right ihl ihr | or left right ihl ihr =>
    simp only [List.length_append, List.length_singleton, CaptureFilter.programLength, ← ihl,
      ← ihr]
    omega
  | not inner ih => exact ih
  | _ => simp [length_frameCode, CaptureFilter.programLength, pushPort]

theorem compile_shaped {f : CaptureFilter} {link : LinkType} {prog : List SockFilter}
    (compiled : compileSimpleBpf f link = some prog) : Shaped f link prog := by
  obtain ⟨lay, supported⟩ := compile_supported compiled
  obtain ⟨code, up, rfl, emits⟩ := compile_emits supported compiled
  constructor
  · exact ⟨code, up, rfl⟩
  · rw [allCoded_append, and_iff_left (allCoded_returns up), emits.coded supported]
  · rw [List.length_append, length_returns, emits.length]

/-- The kernel reads a filter's program as it is meant exactly when it loads words only, and takes
it when it is short. -/
theorem program_valid_iff {f : CaptureFilter} {link : LinkType} {prog : List SockFilter}
    (compiled : compileSimpleBpf f link = some prog) :
    SockFprog.KernelValid { len := .ofNat prog.length, filter := prog } ↔
      (link = .null ∧ f.onlyWords = true) ∧ f.programLength ≤ maxInsns := by
  have shaped := compile_shaped compiled
  constructor
  · intro valid
    exact ⟨shaped.coded.mp valid.coded, shaped.length ▸ valid.short⟩
  · rintro ⟨words, short⟩
    rw [← shaped.length] at short
    refine ⟨shaped.coded.mpr words, short, ?_⟩
    unfold maxInsns at short
    exact UInt16.toNat_ofNat_of_lt' (by simp only [UInt16.size]; omega)

namespace LinuxCapture

section

variable {kernel : SockOpt → Bool} {ifNametoindex : String → Option Nat}

theorem detachBpf_keeps (c : LinuxCapture) : (c.detachBpf kernel).1.linkType = c.linkType ∧
    ∀ p, .attachFilter p ∈ (c.detachBpf kernel).1.issued → .attachFilter p ∈ c.issued := by
  unfold detachBpf
  split
  · exact ⟨rfl, fun p member => member⟩
  · dsimp only
    split
    all_goals
      refine ⟨rfl, fun p member => ?_⟩
      rcases List.mem_append.mp member with there | here
      · exact there
      · simp at here

/-- A filter hands over its own program at most. -/
theorem setFilter_spec (c : LinuxCapture) (f : CaptureFilter) :
    (c.setFilter kernel f).1.linkType = c.linkType ∧
      ∀ p, .attachFilter p ∈ (c.setFilter kernel f).1.issued → .attachFilter p ∈ c.issued ∨
        ∃ prog, compileSimpleBpf f c.linkType = some prog ∧
          p = { len := .ofNat prog.length, filter := prog } := by
  obtain ⟨link, kept⟩ := @detachBpf_keeps kernel c
  unfold setFilter
  generalize c.detachBpf kernel = detached at link kept
  obtain ⟨d, done⟩ := detached
  dsimp only at link kept ⊢
  have old : d.linkType = c.linkType ∧ ∀ p, .attachFilter p ∈ d.issued →
      .attachFilter p ∈ c.issued ∨ ∃ prog, compileSimpleBpf f c.linkType = some prog ∧
        p = { len := .ofNat prog.length, filter := prog } :=
    ⟨link, fun p member => .inl (kept p member)⟩
  split
  · exact old
  · split
    · exact old
    · rw [link]
      split
      · next prog compiled =>
        unfold attachBpf
        dsimp only
        split
        all_goals
          refine ⟨link, fun p member => ?_⟩
          rcases List.mem_append.mp member with there | here
          · exact old.2 p there
          · rw [List.mem_singleton, SockOpt.attachFilter.injEq] at here
            exact .inr ⟨prog, compiled, here⟩
      · exact old

theorem Opened.linkType {c : LinuxCapture} (opened : Opened kernel ifNametoindex c) :
    c.linkType = .ethernet ∨ c.linkType = .linuxSll := by
  induction opened with
  | bound made =>
    unfold LinuxCapture.bound at made
    split at made
    · cases made
      exact .inr rfl
    · obtain ⟨idx, _, rfl⟩ := Option.map_eq_some_iff.mp made
      exact .inl rfl
  | filtered opened filter ih =>
    rw [(setFilter_spec _ filter).1]
    exact ih

/-- No program that a capture hands over is the kernel's. -/
theorem attached_program_never_valid {c : LinuxCapture} (opened : Opened kernel ifNametoindex c)
    {p : SockFprog} (attached : .attachFilter p ∈ c.issued) : ¬ p.KernelValid := by
  induction opened with
  | bound made =>
    unfold LinuxCapture.bound at made
    split at made
    · cases made
      cases attached
    · obtain ⟨idx, _, rfl⟩ := Option.map_eq_some_iff.mp made
      cases attached
  | filtered opened filter ih =>
    rcases (setFilter_spec _ filter).2 p attached with before | ⟨prog, compiled, rfl⟩
    · exact ih before
    · intro valid
      have null := ((program_valid_iff compiled).mp valid).1.1
      rcases opened.linkType with link | link <;> rw [link] at null <;> cases null

end

def demoCapture : LinuxCapture :=
  { ifindex := 2, linkType := .ethernet, bpfProg := none, issued := [] }

def tcpProgram : List SockFilter :=
  [ldh 12, jeq 0x0800 0 1, ldb 23, jeq 6 0 1, ret u32Max, ret 0]

theorem tcp_issued : (demoCapture.setFilter (fun _ => true) (.proto "tcp")).1.issued =
    [.attachFilter { len := 6, filter := tcpProgram }] := by
  decide

theorem tcp_opened : Opened (fun _ => true) (fun _ => some 2)
    (demoCapture.setFilter (fun _ => true) (.proto "tcp")).1 :=
  .filtered (.bound (rfl : LinuxCapture.bound _ "eth0" = some demoCapture)) _

/-- The kernel reads other loads in the program of `tcp`. -/
theorem tcp_program_misread :
    .attachFilter { len := 6, filter := tcpProgram } ∈
        (demoCapture.setFilter (fun _ => true) (.proto "tcp")).1.issued ∧
      (ldh 12).code = 0x21 ∧ Operation.loadHalf.kernelCode = 0x28 ∧
        (ldb 23).code = 0x22 ∧ Operation.loadByte.kernelCode = 0x30 ∧
          ¬ SockFprog.KernelValid { len := 6, filter := tcpProgram } := by
  refine ⟨by rw [tcp_issued]; exact List.mem_singleton_self _, rfl, rfl, rfl, rfl, ?_⟩
  exact fun valid => ldh_not_wellCoded 12 (valid.coded _ List.mem_cons_self)

theorem tcp_program_not_valid : ¬ SockFprog.KernelValid { len := 6, filter := tcpProgram } :=
  attached_program_never_valid tcp_opened (by rw [tcp_issued]; exact List.mem_singleton_self _)

end LinuxCapture

end BitBeak
