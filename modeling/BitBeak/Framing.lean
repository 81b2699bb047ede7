import BitBeak.Lib.Bytes

/-! Stream framing: the length-prefixed codec, the outbound encoder, and the read
path of a stream connection, which drains its buffer after every read. -/
namespace BitBeak
open Wire

inductive Endian where
  | big
  | little
  deriving DecidableEq, Repr

inductive FramingKind where
  | none
  | newline
  | lengthPrefixed
  deriving DecidableEq, Repr

inductive FramingError where
  | lines
  | tooLarge (n : Nat)
  | invalidLength
  deriving DecidableEq, Repr

structure FramingConfig where
  kind : FramingKind := .none
  prefixSize : Nat := 4
  endian : Endian := .big
  maxFrame : Nat := 16 * 1024 * 1024

namespace FramingConfig

def fromArgs (kind : FramingKind) (prefixSize : Nat) (endian : Endian) : FramingConfig :=
  { kind := kind
    prefixSize := match prefixSize with
      | 1 | 2 | 4 | 8 => prefixSize
      | _ => 4
    endian := endian }

end FramingConfig

inductive LpState where
  | length
  | body (len : Nat)
  deriving DecidableEq, Repr

structure LengthPrefixedCodec where
  prefixSize : Nat
  endian : Endian
  maxFrame : Nat
  state : LpState

/-- Machine words of the platform are taken to have 64 bits. -/
def usizeMax : Nat := 2 ^ 64 - 1

namespace LengthPrefixedCodec

def new (prefixSize : Nat) (endian : Endian) (maxFrame : Nat) : LengthPrefixedCodec :=
  ⟨prefixSize, endian, maxFrame, .length⟩

def usizeFrom (v : Nat) : Except FramingError Nat :=
  if v ≤ usizeMax then .ok v else .error .invalidLength

def rawLen (c : LengthPrefixedCodec) (src : Bytes) : Except FramingError Nat :=
  match c.prefixSize, c.endian with
  | 1, _ => .ok (octet src 0).toNat
  | 2, .big => .ok (beAt src 0 2)
  | 2, .little => .ok (leAt src 0 2)
  | 4, .big => .ok (beAt src 0 4)
  | 4, .little => .ok (leAt src 0 4)
  | 8, .big => usizeFrom (beAt src 0 8)
  | 8, .little => usizeFrom (leAt src 0 8)
  | _, _ => .error .invalidLength

def readLen (c : LengthPrefixedCodec) (src : Bytes) : Except FramingError Nat := do
  let n ← c.rawLen src
  if n > c.maxFrame then .error (.tooLarge n) else .ok n

def writeLen (c : LengthPrefixedCodec) (len : Nat) : Except FramingError Bytes :=
  match c.prefixSize, c.endian with
  | 1, _ => if len < 2 ^ 8 then .ok (toBE 1 len) else .error (.tooLarge len)
  | 2, .big => if len < 2 ^ 16 then .ok (toBE 2 len) else .error (.tooLarge len)
  | 2, .little => if len < 2 ^ 16 then .ok (toLE 2 len) else .error (.tooLarge len)
  | 4, .big => if len < 2 ^ 32 then .ok (toBE 4 len) else .error (.tooLarge len)
  | 4, .little => if len < 2 ^ 32 then .ok (toLE 4 len) else .error (.tooLarge len)
  | 8, .big => .ok (toBE 8 len)
  | 8, .little => .ok (toLE 8 len)
  | _, _ => .error .invalidLength

/-- The `Body` arm: the answer, the codec and the buffer it leaves. -/
def decodeBody (c : LengthPrefixedCodec) (len : Nat) (src : Bytes) :
    Except FramingError (Option Bytes) × LengthPrefixedCodec × Bytes :=
  if src.length < len then (.ok none, { c with state := .body len }, src)
  else (.ok (some (src.take len)), { c with state := .length }, src.drop len)

/-- The `Length` arm falls through to the `Body` arm once the prefix is read, so
the loop of the source takes at most two turns. -/
def decode (c : LengthPrefixedCodec) (src : Bytes) :
    Except FramingError (Option Bytes) × LengthPrefixedCodec × Bytes :=
  match c.state with
  | .length =>
    if src.length < c.prefixSize then (.ok none, c, src)
    else match c.readLen (src.take c.prefixSize) with
      | .error e => (.error e, c, src)
      | .ok len => c.decodeBody len (src.drop c.prefixSize)
  | .body len => c.decodeBody len src

def encode (c : LengthPrefixedCodec) (item : Bytes) : Except FramingError Bytes := do
  return (← c.writeLen item.length) ++ item

end LengthPrefixedCodec

def newlineByte : UInt8 := 10

def encodeOutbound (config : FramingConfig) (payload : Bytes) : Except FramingError Bytes :=
  match config.kind with
  | .none => .ok payload
  | .newline =>
    .ok (if payload.getLast? = some newlineByte then payload else payload ++ [newlineByte])
  | .lengthPrefixed =>
    (LengthPrefixedCodec.new config.prefixSize config.endian config.maxFrame).encode payload

/-- The line codec of the codec crate that `NewlineFramer` wraps. -/
structure LinesCodec where
  State : Type
  newWithMaxLength : Nat → State
  decode : State → Bytes → Except FramingError (Option Bytes) × State × Bytes

/-- `while let Ok(Some(item)) = codec.decode(buf)`. Every item takes at least one byte
off the buffer, so one turn more than the buffer has bytes is enough. -/
def drainLoop {σ : Type} (decode : σ → Bytes → Except FramingError (Option Bytes) × σ × Bytes) :
    Nat → σ → Bytes → List Bytes × Bytes
  | 0, _, buf => ([], buf)
  | fuel + 1, codec, buf =>
    match decode codec buf with
    | (.ok (some item), codec', buf') =>
      let rest := drainLoop decode fuel codec' buf'
      (item :: rest.1, rest.2)
    | (_, _, buf') => ([], buf')

/-- The frames one drain delivers and the buffer it leaves. The codec is made anew. -/
def drainFrames (lines : LinesCodec) (buf : Bytes) (framing : FramingConfig) :
    List Bytes × Bytes :=
  match framing.kind with
  | .none => if buf = [] then ([], []) else ([buf], [])
  | .newline =>
    drainLoop lines.decode (buf.length + 1) (lines.newWithMaxLength framing.maxFrame) buf
  | .lengthPrefixed =>
    drainLoop LengthPrefixedCodec.decode (buf.length + 1)
      (.new framing.prefixSize framing.endian framing.maxFrame) buf

/-- The read arm of `run_stream_io` and of the listen loops: the frames sent to the
session so far, and the read buffer. -/
def onRead (lines : LinesCodec) (framing : FramingConfig) (s : List Bytes × Bytes)
    (chunk : Bytes) : List Bytes × Bytes :=
  let drained := drainFrames lines (s.2 ++ chunk) framing
  (s.1 ++ drained.1, drained.2)

def receive (lines : LinesCodec) (framing : FramingConfig) (chunks : List Bytes) :
    List Bytes × Bytes :=
  chunks.foldl (onRead lines framing) ([], [])

end BitBeak
