import BitBeak.Lib.ForwardCode
import BitBeak.Capture.CapFilter

/-! Capture filters compiled to classic BPF for the kernel: IPv4 only, with a header of
20 bytes. Every program is a list of checks with two returns behind it, and the programs of
`and`, `or` and `not` are put together by patching these returns. -/
namespace BitBeak
open Wire

structure SockFilter where
  code : UInt16
  jt : UInt8
  jf : UInt8
  k : UInt32
  deriving DecidableEq, Repr

def bpfLd : UInt16 := 0x00
def bpfLdh : UInt16 := 0x01
def bpfLdb : UInt16 := 0x02
def bpfJmp : UInt16 := 0x05
def bpfRet : UInt16 := 0x06
def bpfJeq : UInt16 := 0x10
def bpfK : UInt16 := 0x00
def bpfAbs : UInt16 := 0x20

namespace SockFilter

def ldh (off : UInt32) : SockFilter := { code := bpfLdh ||| bpfAbs, jt := 0, jf := 0, k := off }
def ldb (off : UInt32) : SockFilter := { code := bpfLdb ||| bpfAbs, jt := 0, jf := 0, k := off }
def ld (off : UInt32) : SockFilter := { code := bpfLd ||| bpfAbs, jt := 0, jf := 0, k := off }

def jeq (val : UInt32) (jt jf : UInt8) : SockFilter :=
  { code := bpfJmp ||| bpfJeq ||| bpfK, jt := jt, jf := jf, k := val }

def ret (val : UInt32) : SockFilter := { code := bpfRet ||| bpfK, jt := 0, jf := 0, k := val }

end SockFilter

def u32Max : UInt32 := 0xffffffff

open SockFilter

structure Layout where
  ethCheck : Bool
  ethOff : UInt32
  ip : UInt32
  deriving DecidableEq, Repr

def layout : LinkType → Option Layout
  | .ethernet => some { ethCheck := true, ethOff := 12, ip := 14 }
  | .linuxSll => some { ethCheck := true, ethOff := 14, ip := 16 }
  | .linuxSll2 => some { ethCheck := true, ethOff := 0, ip := 20 }
  | .null => some { ethCheck := false, ethOff := 0, ip := 4 }
  | _ => none

/-- `dir` is the side of the port: `None`, `Some(true)` and `Some(false)` of the source are
either one, the source's and the destination's. -/
def pushPort (proto l4 : UInt32) (port : UInt16) (dir : Side) : List SockFilter :=
  let p := port.toUInt32
  [ldb proto, jeq 6 0 0, jeq 17 0 1] ++
    match dir with
    | .source => [ldh l4, jeq p 0 1]
    | .destination => [ldh (l4 + 2), jeq p 0 1]
    | .either => [ldh l4, jeq p 2 0, ldh (l4 + 2), jeq p 0 1]

def mergeAnd (a b : List SockFilter) : Option (List SockFilter) :=
  if a.length < 2 ∨ b.length < 2 then none else some (a.take (a.length - 2) ++ b)

def mergeOr (a b : List SockFilter) : Option (List SockFilter) :=
  if a.length < 2 ∨ b.length < 2 then none
  else some (a.dropLast.dropLast ++ [ret u32Max] ++ b)

/-- The last two instructions change places. -/
def mergeNot (inner : List SockFilter) : Option (List SockFilter) :=
  if short : inner.length < 2 then none
  else
    let n := inner.length
    let first := inner[n - 2]
    let second := inner[n - 1]
    some ((inner.set (n - 2) second).set (n - 1) first)

def compileSimpleBpf (filter : CaptureFilter) (link : LinkType) : Option (List SockFilter) :=
  if !filter.isKernelSimple then none
  else do
    let lay ← layout link
    let ip := lay.ip
    let proto := ip + 9
    let src := ip + 12
    let dst := ip + 16
    let l4 := ip + 20
    let insns :=
      if lay.ethCheck then [ldh lay.ethOff, jeq 0x0800 0 1] else [ld 0, jeq 2 0 1]
    let returns := [ret u32Max, ret 0]
    match filter with
    | .true => some (insns ++ returns)
    | .proto p => match p with
      | "tcp" => some (insns ++ [ldb proto, jeq 6 0 1] ++ returns)
      | "udp" => some (insns ++ [ldb proto, jeq 17 0 1] ++ returns)
      | "icmp" => some (insns ++ [ldb proto, jeq 1 0 1] ++ returns)
      | "ip" => some (insns ++ returns)
      | _ => none
    | .host (.v4 v4) =>
      let v := UInt32.ofBitVec v4
      some (insns ++ [ld src, jeq v 2 0, ld dst, jeq v 0 1] ++ returns)
    | .srcHost (.v4 v4) => some (insns ++ [ld src, jeq (.ofBitVec v4) 0 1] ++ returns)
    | .dstHost (.v4 v4) => some (insns ++ [ld dst, jeq (.ofBitVec v4) 0 1] ++ returns)
    | .port p => some (insns ++ pushPort proto l4 p .either ++ returns)
    | .srcPort p => some (insns ++ pushPort proto l4 p .source ++ returns)
    | .dstPort p => some (insns ++ pushPort proto l4 p .destination ++ returns)
    | .and a b => mergeAnd (← compileSimpleBpf a link) (← compileSimpleBpf b link)
    | .or a b => mergeOr (← compileSimpleBpf a link) (← compileSimpleBpf b link)
    | .not inner => mergeNot (← compileSimpleBpf inner link)
    | _ => none

/- What a program does to a packet. The instructions mean what their constructors are
named for, not what a kernel reads in the numbers of their codes. -/

/-- The big-endian number of `width` octets at `off`, where the packet has them all. -/
def wordAt (data : Bytes) (off : UInt32) (width : Nat) : Option Nat :=
  if off.toNat + width ≤ data.length then some (beAt data off.toNat width) else none

/-- The state is the accumulator. A load outside the packet rejects it. -/
def SockFilter.exec (data : Bytes) (insn : SockFilter) (acc : Nat) :
    ForwardCode.Flow Nat Bool :=
  let load (width : Nat) : ForwardCode.Flow Nat Bool :=
    match wordAt data insn.k width with
    | some w => .next 0 w
    | none => .stop false
  if insn.code = bpfLd ||| bpfAbs then load 4
  else if insn.code = bpfLdh ||| bpfAbs then load 2
  else if insn.code = bpfLdb ||| bpfAbs then load 1
  else if insn.code = bpfJmp ||| bpfJeq ||| bpfK then
    .next (if acc = insn.k.toNat then insn.jt.toNat else insn.jf.toNat) acc
  else if insn.code = bpfRet ||| bpfK then .stop (insn.k != 0)
  else .stop false

/-- The program accepts the packet. One that runs past its end does not. -/
def bpfAccepts (prog : List SockFilter) (data : Bytes) : Bool :=
  match ForwardCode.run (SockFilter.exec data) prog 0 0 with
  | .stop accepted => accepted
  | .next _ _ => false

end BitBeak
