import BitBeak.Lib.Exec
import BitBeak.Dissect.Packet
import BitBeak.Dissect.Tree

/-! The state the dissectors share while they take a frame apart, the operations on it, and
the invariant all of them keep. -/
namespace BitBeak
open Wire

inductive TransportProto where
  | tcp
  | udp
  deriving DecidableEq, Repr

/-- A transport header with the payload it delimits. UDP has no sequence number. -/
structure Transport where
  proto : TransportProto
  sport : Nat
  dport : Nat
  seq : Nat := 0
  payloadOffset : Nat
  payload : Bytes
  deriving DecidableEq, Repr

/-- The tree, flags and summary the dissectors are handed. `transport` is not in the source:
it notes what the transport dissector read, for the theorems to speak about. -/
structure Dissection where
  tree : ProtoTree := {}
  flags : ProtocolFlags := {}
  summary : PacketSummary := {}
  transport : Option Transport := none
  deriving DecidableEq, Repr

abbrev Dissector (α : Type) := Exec Dissection α

namespace Dissector

def addRoot (label : String) (offset len : Nat) : Dissector Nat := do
  let s ← get
  let (tree, idx) := s.tree.addRoot label offset len
  set { s with tree := tree }
  return idx

def addChild (parent : Nat) (label : String) (offset len : Nat) : Dissector Nat := do
  let s ← get
  let (tree, idx) := s.tree.addChild parent label offset len
  set { s with tree := tree }
  return idx

/-- A section is a child without a value. -/
def addSection (parent : Nat) (label : String) (offset len : Nat) : Dissector Nat :=
  addChild parent label offset len

/-- Several calls of `add_child` under one parent. -/
def addFields (parent : Nat) (fields : List (String × Nat × Nat)) : Dissector PUnit :=
  fields.forM fun (label, offset, len) => do
    let _ ← addChild parent label offset len

def onlyIf (c : Prop) [Decidable c] (m : Dissector PUnit) : Dissector PUnit :=
  if c then m else pure ⟨⟩

def setFlags (change : ProtocolFlags → ProtocolFlags) : Dissector PUnit :=
  modify fun s => { s with flags := change s.flags }

def setSummary (change : PacketSummary → PacketSummary) : Dissector PUnit :=
  modify fun s => { s with summary := change s.summary }

def setProtocol (name : String) : Dissector PUnit := setSummary fun m => { m with protocol := name }
def setInfo (info : String) : Dissector PUnit := setSummary fun m => { m with info := info }

def setAddresses (src dst : String) : Dissector PUnit :=
  setSummary fun m => { m with src := src, dst := dst }

def noteTransport (transport : Transport) : Dissector PUnit :=
  modify fun s => { s with transport := some transport }

/-- A dissector run with flags and a summary of its own, which are dropped. -/
def isolated {α : Type} (m : Dissector α) : Dissector α := do
  let outer ← get
  set { outer with flags := {}, summary := {}, transport := none }
  let result ← m
  modify fun s =>
    { s with flags := outer.flags, summary := outer.summary, transport := outer.transport }
  return result

end Dissector

/-- How a frame is labelled: the transport header that was read and the flags beside it. -/
structure Labels where
  transport : Option Transport := none
  tcp : Bool := false
  udp : Bool := false
  deriving DecidableEq, Repr

def Dissection.labels (s : Dissection) : Labels :=
  { transport := s.transport, tcp := s.flags.tcp, udp := s.flags.udp }

/-- On a frame of `size` octets: every node is inside the frame, the labels are the given
ones, and TLS was seen only where there is room for a transport header. -/
structure Sound (size : Nat) (labels : Labels) (s : Dissection) : Prop where
  inside : s.tree.Inside size
  labelled : s.labels = labels
  tls : s.flags.tls = true → 20 ≤ size

/-- An invariant that admits nodes between `lo` and `hi`, any summary, and any flags beside those
of the transport layer, of TLS and of WebSocket. -/
structure Admits (lo hi : Nat) (I : Dissection → Prop) : Prop where
  node : ∀ (s : Dissection) (parent : Nat) (label : String) (offset len : Nat), I s →
    lo ≤ offset ∧ offset + len ≤ hi →
      I { s with tree := (s.tree.addChild parent label offset len).1 }
  summary : ∀ (s : Dissection) (change : PacketSummary → PacketSummary), I s →
    I { s with summary := change s.summary }
  flags : ∀ (s : Dissection) (change : ProtocolFlags → ProtocolFlags),
    (∀ flags, (change flags).tcp = flags.tcp ∧ (change flags).udp = flags.udp ∧
      (change flags).tls = flags.tls ∧ (change flags).websocket = flags.websocket) →
    I s → I { s with flags := change s.flags }

/-- It admits the flag of WebSocket too. -/
structure Allows (lo hi : Nat) (I : Dissection → Prop) : Prop extends Admits lo hi I where
  marks : ∀ (s : Dissection) (change : ProtocolFlags → ProtocolFlags),
    (∀ flags, (change flags).tcp = flags.tcp ∧ (change flags).udp = flags.udp ∧
      (change flags).tls = flags.tls) → I s → I { s with flags := change s.flags }

namespace Admits

variable {lo hi : Nat} {I : Dissection → Prop} {parent offset len : Nat} {label : String}

theorem addChild (admits : Admits lo hi I) (within : lo ≤ offset ∧ offset + len ≤ hi) :
    Keeps I (Dissector.addChild parent label offset len) := by
  intro s held
  exact ⟨_, _, rfl, admits.node s parent label offset len held within⟩

theorem addSection (admits : Admits lo hi I) (within : lo ≤ offset ∧ offset + len ≤ hi) :
    Keeps I (Dissector.addSection parent label offset len) :=
  admits.addChild within

theorem addFields (admits : Admits lo hi I) {fields : List (String × Nat × Nat)}
    (within : ∀ field ∈ fields, lo ≤ field.2.1 ∧ field.2.1 + field.2.2 ≤ hi) :
    Keeps I (Dissector.addFields parent fields) := by
  apply Keeps.forM
  intro field member
  exact .bind (admits.addChild (within field member)) (fun _ => .pure _)

theorem addField (admits : Admits lo hi I) (within : lo ≤ offset ∧ offset + len ≤ hi) :
    Keeps I (Dissector.addFields parent [(label, offset, len)]) := by
  apply admits.addFields
  intro field member
  cases List.mem_singleton.mp member
  exact within

theorem setSummary (admits : Admits lo hi I) {change : PacketSummary → PacketSummary} :
    Keeps I (Dissector.setSummary change) :=
  .modify (fun s held => admits.summary s change held)

theorem setFlags (admits : Admits lo hi I) {change : ProtocolFlags → ProtocolFlags}
    (same : ∀ flags, (change flags).tcp = flags.tcp ∧ (change flags).udp = flags.udp ∧
      (change flags).tls = flags.tls ∧ (change flags).websocket = flags.websocket) :
    Keeps I (Dissector.setFlags change) :=
  .modify (fun s held => admits.flags s change same held)

end Admits

theorem Allows.setFlags {lo hi : Nat} {I : Dissection → Prop} (allows : Allows lo hi I)
    {change : ProtocolFlags → ProtocolFlags}
    (same : ∀ flags, (change flags).tcp = flags.tcp ∧ (change flags).udp = flags.udp ∧
      (change flags).tls = flags.tls) : Keeps I (Dissector.setFlags change) :=
  .modify (fun s held => allows.marks s change same held)

theorem Sound.setFlags {size : Nat} {labels : Labels} {s : Dissection}
    (sound : Sound size labels s) {change : ProtocolFlags → ProtocolFlags}
    (same : ∀ flags, (change flags).tcp = flags.tcp ∧ (change flags).udp = flags.udp ∧
      (change flags).tls = flags.tls) : Sound size labels { s with flags := change s.flags } := by
  obtain ⟨tcp, udp, tls⟩ := same s.flags
  refine ⟨sound.inside, ?_, ?_⟩
  · rw [← sound.labelled, Dissection.labels, Dissection.labels, tcp, udp]
  · rw [tls]
    exact sound.tls

theorem Sound.allows {size : Nat} {labels : Labels} : Allows 0 size (Sound size labels) where
  node _ _ _ _ _ sound within := ⟨sound.inside.addChild within.2, sound.labelled, sound.tls⟩
  summary _ _ sound := ⟨sound.inside, sound.labelled, sound.tls⟩
  flags _ _ same sound := sound.setFlags fun flags =>
    ⟨(same flags).1, (same flags).2.1, (same flags).2.2.1⟩
  marks _ _ same sound := sound.setFlags same

theorem Sound.admits {size : Nat} {labels : Labels} : Admits 0 size (Sound size labels) :=
  Sound.allows.toAdmits

namespace Dissector

theorem onlyIf_keeps {I : Dissection → Prop} {c : Prop} [Decidable c] {m : Dissector PUnit}
    (run : c → Keeps I m) : Keeps I (onlyIf c m) :=
  .ite run (fun _ => .pure _)

variable {size : Nat} {labels : Labels} {parent offset len : Nat} {label : String}

theorem addRoot_keeps (fits : offset + len ≤ size) :
    Keeps (Sound size labels) (addRoot label offset len) := by
  intro s sound
  exact ⟨_, _, rfl, sound.inside.addRoot fits, sound.labelled, sound.tls⟩

/-- A change of the labels that leaves the tree and the TLS flag. -/
theorem relabel {before after : Labels} {change : Dissection → Dissection}
    (same : ∀ s, (change s).tree = s.tree ∧ (change s).flags.tls = s.flags.tls)
    (labels : ∀ s, s.labels = before → (change s).labels = after) :
    Meets (Sound size before) (modify change) (fun _ => Sound size after) := by
  refine .modify ?_
  intro s sound
  obtain ⟨tree, tls⟩ := same s
  exact ⟨tree ▸ sound.inside, labels s sound.labelled, tls ▸ sound.tls⟩

theorem isolated_keeps {α : Type} {m : Dissector α} {inner : Labels}
    (run : Meets (Sound size {}) m (fun _ => Sound size inner)) :
    Keeps (Sound size labels) (isolated m) := by
  intro s sound
  obtain ⟨a, t, ran, after⟩ := run { s with flags := {}, summary := {}, transport := none }
    ⟨sound.inside, rfl, fun impossible => by cases impossible⟩
  refine ⟨a, { t with flags := s.flags, summary := s.summary, transport := s.transport }, ?_,
    ⟨after.inside, sound.labelled, sound.tls⟩⟩
  change (Except.bind (m _) _ : Except Fault (α × Dissection)) = _
  rw [ran]
  rfl

theorem addFields_cons (parent : Nat) (field : String × Nat × Nat)
    (fields : List (String × Nat × Nat)) :
    addFields parent (field :: fields) =
      (do addFields parent [field]; addFields parent fields : Dissector PUnit) := by
  simp [addFields, List.forM_cons]

theorem addFields_append (parent : Nat) (a b : List (String × Nat × Nat)) :
    addFields parent (a ++ b) = (do addFields parent a; addFields parent b : Dissector PUnit) := by
  induction a with
  | nil => rfl
  | cons field a ih =>
    rw [List.cons_append, addFields_cons, ih, addFields_cons parent field a, bind_assoc]

/-- A read inside its string, once its value is known. -/
theorem read_ok {α : Type} {a : α} : (liftM (Except.ok a : Except Fault α) : Dissector α) = pure a :=
  rfl

end Dissector

end BitBeak
