import BitBeak.Dissect.Account
import BitBeak.Dissect.Decrypt

/-! The payload that is left of a frame is a range of the frame, but for a WebSocket header that
is longer than what is left of the frame. -/
namespace BitBeak
open Wire Dissector

section

variable {crates : Crates} {ciphers : TlsCiphers} {frame : Bytes} {linkType : LinkType}

/-- The plaintext that takes the place of the TLS records in the summary. -/
def openedHttp1 (crates : Crates) (ciphers : TlsCiphers) (keylog : KeyLog) (data : Bytes)
    (linkType : LinkType) : Option Bytes :=
  if keylog.hasSecrets then
    match decryptTlsInFrameExt crates ciphers keylog data linkType {} with
    | .ok (out, _) => out.plaintext.filter plainLooksLikeHttp1
    | .error _ => none
  else none

/-- What the key log makes of a packet that is dissected without one. -/
inductive Restaged (crates : Crates) (d : DissectedPacket) : Option Bytes → DissectedPacket → Prop
  | kept (decrypted : Option Bytes) : Restaged crates d none { d with decrypted := decrypted }
  | opened (plain : Bytes) (s : Dissection) (fields : DisplayFields) (tree : ProtoTree)
      (ends : s.ends = { d.state.ends with transport := none })
      (info : s.summary.info = http1Text crates plain)
      (filled : populateDisplayFields crates s.flags s.summary plain .raw = .ok fields) :
      Restaged crates d (some plain)
        { d with
          tree := tree
          summary := s.summary
          flags := s.flags
          decrypted := some plain
          fields := fields.foldl (fun all (key, value) => all.insert key value) d.fields }

/-- The opened message leaves the ends of the packet and tells its start line. -/
theorem decryptedHttp_told {plain : Bytes} {s t : Dissection} {r : LayerResult}
    (sub : (do
      let subRoot ← addRoot "Decrypted HTTP" 0 plain.length
      dissectHttp1 crates subRoot plain 0 : Dissector LayerResult) s = .ok (r, t)) :
    t.ends = s.ends ∧ t.summary.info = http1Text crates plain := by
  have left : Leaves Dissection.ends (do
      let subRoot ← addRoot "Decrypted HTTP" 0 plain.length
      dissectHttp1 crates subRoot plain 0) :=
    .bind (leaves_ends addRoot_leaves) (fun _ => dissectHttp1_leaves)
  have made : Gives (fun _ => True) (do
      let subRoot ← addRoot "Decrypted HTTP" 0 plain.length
      dissectHttp1 crates subRoot plain 0)
      (fun r t => r = { payload := plain.drop (http1Head crates plain),
                        payloadOffset := 0 + http1Head crates plain } ∧
        t.summary.info = http1Text crates plain) :=
    .after (fun _ => dissectHttp1_gives)
  exact ⟨left _ _ _ sub, (made s trivial r t sub).2⟩

theorem openedHttp1_closed {keylog : KeyLog} {tls : Bool}
    (closed : ¬ (tls = true ∧ keylog.hasSecrets = true)) :
    (if tls then openedHttp1 crates ciphers keylog frame linkType else none) = none := by
  by_cases flagged : tls = true
  · rw [if_pos flagged, openedHttp1, if_neg (fun secrets => closed ⟨flagged, secrets⟩)]
  · exact if_neg flagged

theorem decryptStage_restaged {keylog : KeyLog} {d d' : DissectedPacket}
    (done : decryptStage crates ciphers keylog frame linkType d = .ok d') :
    Restaged crates d
      (if d.flags.tls then openedHttp1 crates ciphers keylog frame linkType else none) d' := by
  unfold decryptStage at done
  split at done
  · next both =>
    obtain ⟨tls, secrets⟩ := both
    obtain ⟨⟨out, state⟩, opened, rest⟩ := ok_of_bind done
    rw [if_pos tls, openedHttp1, if_pos secrets, opened]
    dsimp only at rest ⊢
    split at rest
    · next closed =>
      rw [closed]
      cases rest
      exact .kept d.decrypted
    · next plain found =>
      rw [found]
      split at rest
      · next http =>
        obtain ⟨⟨r, s⟩, sub, last⟩ := ok_of_bind rest
        obtain ⟨fields, filled, last⟩ := ok_of_bind last
        cases last
        obtain ⟨ends, info⟩ := decryptedHttp_told sub
        rw [Option.filter_some, if_pos http]
        exact .opened plain s fields _ ends info filled
      · next other =>
        rw [Option.filter_some, if_neg other]
        cases rest
        exact .kept (some plain)
  · next closed =>
    cases done
    rw [openedHttp1_closed closed]
    exact .kept d.decrypted

theorem dissectWith_restaged {keylog : Option KeyLog} {d' : DissectedPacket}
    (done : dissectWith crates ciphers keylog frame linkType = .ok d') :
    ∃ d, dissect crates frame linkType = .ok d ∧ Restaged crates d
      (if d.flags.tls then
        keylog.bind (fun keylog => openedHttp1 crates ciphers keylog frame linkType) else none)
      d' := by
  obtain ⟨d, dissected, rest⟩ := ok_of_bind done
  refine ⟨d, dissected, ?_⟩
  cases keylog with
  | some keylog => exact decryptStage_restaged rest
  | none =>
    cases rest
    simp only [Option.bind_none, ite_self]
    exact .kept d'.decrypted

namespace Restaged

variable {d d' : DissectedPacket} {opened : Option Bytes}

theorem result (restaged : Restaged crates d opened d') : d'.result = d.result := by
  cases restaged <;> rfl

theorem ends (restaged : Restaged crates d opened d') : d'.state.ends = d.state.ends := by
  cases restaged with
  | kept => rfl
  | opened plain s fields tree ends =>
    simp only [Dissection.ends, Ends.mk.injEq, DissectedPacket.state] at ends ⊢
    obtain ⟨src, dst, tcp, udp, tls, -⟩ := ends
    exact ⟨src, dst, tcp, udp, tls, trivial⟩

end Restaged

/-- Where the segment of a frame is taken for a WebSocket frame, its header lies in the frame. -/
def WsRoom (linkType : LinkType) (frame : Bytes) : Prop :=
  ∀ seg, (frameLabels linkType frame).transport = some seg → seg.proto = .tcp →
    seg.application = some .websocket → seg.payloadOffset + wsHeader seg.payload ≤ frame.length

theorem at_restFrom {offset n : Nat} {data : Bytes} (placed : At frame offset data) :
    At frame (restFrom offset n data).payloadOffset (restFrom offset n data).payload ↔
      n ≤ data.length ∨ offset + n ≤ frame.length := by
  by_cases room : n ≤ data.length
  · simp [placed.rest room, room]
  · have spent : data.drop n = [] := List.drop_eq_nil_of_le (by omega)
    simp only [restFrom, spent, At.nil_iff, room, false_or]

/-- Every application but WebSocket takes a part of the payload. -/
theorem taken_le (contract : crates.Contract) {application : Option TcpApplication}
    (other : application ≠ some .websocket) (payload : Bytes) :
    taken crates payload application ≤ payload.length := by
  rcases application with _ | _ | _ | _ | _ | _
  · exact Nat.zero_le _
  · exact Nat.le_refl _
  · exact Nat.le_refl _
  · exact http1Head_le contract payload
  · exact absurd rfl other
  · exact Nat.zero_le _

theorem account_payload_iff (contract : crates.Contract) {segment : Option Bytes} {r : LayerResult}
    {s : Dissection} (account : Account crates frame segment r s)
    (labelled : s.labels = frameLabels linkType frame) :
    At frame r.payloadOffset r.payload ↔ WsRoom linkType frame := by
  unfold WsRoom
  rw [← labelled]
  dsimp only [Dissection.labels]
  cases account with
  | none untouched placed => simp [placed, untouched.transport]
  | udp seg noted proto tcp udp ported placed => simp [placed, noted, proto]
  | tcp data here offset noted tcp udp tls ported info result placed =>
    subst result
    rw [noted, at_restFrom placed]
    constructor
    · rintro room seg known - websocket
      cases known
      rw [websocket] at room
      have inside := placed.inside
      change wsHeader _ ≤ _ ∨ _ + wsHeader _ ≤ _ at room
      omega
    · intro room
      by_cases websocket : (tcpHeader offset data).application = some .websocket
      · rw [websocket]
        exact .inr (room _ rfl rfl websocket)
      · exact .inl (taken_le contract websocket _)

/-- Every frame is dissected, and the payload that is left is the range of the frame it is said
to be if and only if no WebSocket header reaches beyond the end. -/
theorem payload_in_frame_iff (contract : crates.Contract) (frame : Bytes) (linkType : LinkType) :
    (∃ d, dissect crates frame linkType = .ok d) ∧
      ∀ ciphers keylog d, dissectWith crates ciphers keylog frame linkType = .ok d →
        (At frame d.payloadOffset d.payload ↔ WsRoom linkType frame) := by
  obtain ⟨d, dissected, _, labelled⟩ := dissect_ok contract frame linkType
  refine ⟨⟨d, dissected⟩, ?_⟩
  intro ciphers keylog d' done
  obtain ⟨plain, first, restaged⟩ := dissectWith_restaged done
  cases dissected.symm.trans first
  have same := restaged.result
  simp only [DissectedPacket.result, LayerResult.mk.injEq] at same
  rw [same.1, same.2]
  exact account_payload_iff contract (dissect_account dissected).1 labelled

end

/-- A segment to port 2 in a raw IPv4 datagram. -/
def segmentFrame (sport flags : UInt8) (payload : Bytes) : Bytes :=
  [0x45, 0, 0, UInt8.ofNat (40 + payload.length), 0, 1, 0, 0, 64, 6, 0, 0, 10, 0, 0, 1] ++
    [10, 0, 0, 2] ++ [0, sport, 0, 2, 0, 0, 0, 0, 0, 0, 0, 0, 0x50, flags, 0, 0, 0, 0, 0, 0] ++ payload

theorem text_frame_in_frame : (∃ d, dissect refusingCrates (segmentFrame 1 16 [0x81, 0]) .raw = .ok d) ∧
    ∀ ciphers keylog d,
      dissectWith refusingCrates ciphers keylog (segmentFrame 1 16 [0x81, 0]) .raw = .ok d →
        (At (segmentFrame 1 16 [0x81, 0]) d.payloadOffset d.payload ↔
          WsRoom .raw (segmentFrame 1 16 [0x81, 0])) :=
  payload_in_frame_iff refusingCrates_contract (segmentFrame 1 16 [0x81, 0]) .raw

/-- The first two octets of a masked frame with an extended length. -/
theorem truncated_ws_header_outside : ¬ ∀ (frame : Bytes) (linkType : LinkType) (d : DissectedPacket),
    dissect refusingCrates frame linkType = .ok d → At frame d.payloadOffset d.payload := by
  intro claimed
  obtain ⟨d, dissected, _, labelled⟩ :=
    dissect_ok refusingCrates_contract (segmentFrame 1 16 [0x81, 0xfe]) .raw
  have room := (account_payload_iff refusingCrates_contract (dissect_account dissected).1
    labelled).mp (claimed _ _ _ dissected)
  exact absurd (room _ rfl rfl (by decide +kernel)) (by decide)

end BitBeak
