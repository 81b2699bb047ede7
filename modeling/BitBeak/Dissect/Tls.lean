import BitBeak.Dissect.Crates
import BitBeak.Dissect.Dissection
import BitBeak.Dissect.Text

/-! TLS records in a TCP payload, with the handshake messages of each. -/
namespace BitBeak
open Wire Dissector

/-- The name in a server name extension: a small walk over types and lengths. -/
def extractSniFrom (ext : Bytes) : Nat → Nat → Except Fault (Option String)
  | 0, _ => .error .outOfFuel
  | fuel + 1, i => do
    if i + 4 ≤ ext.length then
      let typ ← readBE ext i 2
      let len ← readBE ext (i + 2) 2
      let i := i + 4
      if ext.length < i + len then return none
      else if typ = 0 ∧ 5 ≤ len then
        let nameLen ← readBE ext (i + 3) 2
        if i + 5 + nameLen ≤ ext.length then
          return some (fromUtf8Lossy (← slice ext (i + 5) (i + 5 + nameLen)))
        else extractSniFrom ext fuel (i + len)
      else extractSniFrom ext fuel (i + len)
    else return none

def extractSni (ext : Bytes) : Except Fault (Option String) :=
  extractSniFrom ext (ext.length + 1) 0

/-- The children and texts of the messages of one record, whose header ends at `off + 5`. -/
def tlsMessages (record off : Nat) : List TlsMessage → List String → Dissector (List String)
  | [], infos => return infos
  | .handshake (.clientHello _ ext) :: msg, infos => do
    let _ ← addChild record "Handshake" (off + 5) 0
    match ext with
    | none => tlsMessages record off msg (infos ++ ["ClientHello"])
    | some ext =>
      match ← extractSni ext with
      | none => tlsMessages record off msg (infos ++ ["ClientHello"])
      | some sni =>
        let _ ← addChild record "SNI" (off + 5) 0
        tlsMessages record off msg (infos ++ ["ClientHello", "SNI=" ++ sni])
  | .handshake (.serverHello _) :: msg, infos => do
    let _ ← addChild record "Handshake" (off + 5) 0
    tlsMessages record off msg (infos ++ ["ServerHello"])
  | .handshake .certificate :: msg, infos => do
    let _ ← addChild record "Handshake" (off + 5) 0
    tlsMessages record off msg (infos ++ ["Certificate"])
  | .handshake (.other debug) :: msg, infos => do
    let _ ← addChild record "Handshake" (off + 5) 0
    tlsMessages record off msg (infos ++ [debug])
  | .applicationData _ :: msg, infos => tlsMessages record off msg (infos ++ ["AppData"])
  | .other :: msg, infos => tlsMessages record off msg infos

def TlsRecordType.text : TlsRecordType → String
  | changeCipherSpec => "ChangeCipherSpec"
  | alert => "Alert"
  | handshake => "Handshake"
  | applicationData => "Application Data"
  | heartbeat => "Heartbeat"
  | other => "Record"

def tlsRecords (crates : Crates) (parent sec : Nat) :
    Nat → Bytes → Nat → List String → Dissector (List String)
  | 0, _, _, _ => liftM (.error .outOfFuel : Except Fault (List String))
  | fuel + 1, rest, off, infos =>
    if rest = [] then return infos
    else match crates.parseTlsPlaintext rest with
      | some (remain, record) => do
        let consumed ← checkedSub rest.length remain.length
        let child ← addSection parent ("TLS Record (" ++ record.recordType.text ++ ")") off consumed
        addFields child [("Content Type", off, 1), ("Version", off + 1, 2), ("Length", off + 3, 2)]
        let infos ← tlsMessages child off record.msg infos
        tlsRecords crates parent sec fuel remain (off + consumed) infos
      | none => do
        let _ ← addChild sec "Data" off rest.length
        return if infos = [] then [s!"{rest.length} bytes"] else infos

def dissectTls (crates : Crates) (parent : Nat) (data : Bytes) (offset : Nat) :
    Dissector LayerResult := do
  setFlags fun f => { f with tls := true }
  setProtocol "TLS"
  let sec ← addSection parent "Transport Layer Security" offset data.length
  let infos ← tlsRecords crates parent sec (data.length + 1) data offset []
  setInfo (if infos = [] then "TLS" else "TLS " ++ ", ".intercalate infos)
  return { payload := [], payloadOffset := offset + data.length }

/- The walks stay inside their strings and use up neither the fuel nor the frame. -/

theorem extractSniFrom_ok {ext : Bytes} {fuel i : Nat} (inside : i ≤ ext.length)
    (enough : ext.length < i + fuel) : ∃ sni, extractSniFrom ext fuel i = .ok sni := by
  induction fuel generalizing i with
  | zero => omega
  | succ fuel ih =>
    unfold extractSniFrom
    split
    · rw [readBE_ok (by omega), readBE_ok (by omega), ok_bind, ok_bind]
      dsimp only
      split
      · exact ⟨none, rfl⟩
      · split
        · rw [readBE_ok (by omega), ok_bind]
          split
          · rw [slice_ok (by omega) (by omega)]
            exact ⟨_, rfl⟩
          · exact ih (by omega) (by omega)
        · exact ih (by omega) (by omega)
    · exact ⟨none, rfl⟩

theorem extractSni_ok (ext : Bytes) : ∃ sni, extractSni ext = .ok sni :=
  extractSniFrom_ok (Nat.zero_le _) (by omega)

section

variable {lo hi : Nat} {I : Dissection → Prop}

theorem tlsMessages_keeps (allows : Allows lo hi I) {record off : Nat} (low : lo ≤ off)
    (fits : off + 5 ≤ hi) (msg : List TlsMessage) (infos : List String) :
    Keeps I (tlsMessages record off msg infos) := by
  have child (label : String) : Keeps I (addChild record label (off + 5) 0) :=
    allows.addChild (by omega)
  induction msg generalizing infos with
  | nil => exact .pure _
  | cons m msg ih =>
    cases m with
    | applicationData blob => exact ih _
    | other => exact ih _
    | handshake hs =>
      cases hs with
      | serverHello random => exact .bind (child _) (fun _ => ih _)
      | certificate => exact .bind (child _) (fun _ => ih _)
      | other debug => exact .bind (child _) (fun _ => ih _)
      | clientHello random ext =>
        refine .bind (child _) (fun _ => ?_)
        cases ext with
        | none => exact ih _
        | some ext =>
          obtain ⟨sni, walked⟩ := extractSni_ok ext
          simp only [walked, read_ok, pure_bind]
          cases sni with
          | none => exact ih _
          | some sni => exact .bind (child _) (fun _ => ih _)

theorem tlsRecords_keeps (allows : Allows lo hi I) {crates : Crates} (contract : crates.Contract)
    {parent sec fuel : Nat} {rest : Bytes} {off : Nat} (infos : List String) (low : lo ≤ off)
    (fits : off + rest.length ≤ hi) (enough : rest.length < fuel) :
    Keeps I (tlsRecords crates parent sec fuel rest off infos) := by
  induction fuel generalizing rest off infos with
  | zero => omega
  | succ fuel ih =>
    unfold tlsRecords
    split
    · exact .pure _
    · cases parsed : crates.parseTlsPlaintext rest with
      | none => exact .bind (allows.addChild ⟨low, fits⟩) (fun _ => .pure _)
      | some found =>
        obtain ⟨remain, record⟩ := found
        obtain ⟨header, whole, long⟩ := contract.tls rest remain record parsed
        have split : rest.length = header.length + remain.length := by
          rw [whole, List.length_append]
        have consumed : checkedSub rest.length remain.length = .ok header.length := by
          rw [checkedSub_ok (by omega), split, Nat.add_sub_cancel]
        simp only [consumed, read_ok, pure_bind]
        refine .bind (allows.addSection (by omega)) (fun child => ?_)
        refine .bind (allows.addFields ?_) (fun _ => ?_)
        · simp only [List.forall_mem_cons, List.not_mem_nil, false_implies, implies_true, and_true]
          omega
        · exact .bind (tlsMessages_keeps allows low (by omega) _ _)
            (fun infos => ih infos (by omega) (by omega) (by omega))

theorem dissectTls_keeps (allows : Allows lo hi I)
    (marked : Keeps I (setFlags fun f => { f with tls := true })) {crates : Crates}
    (contract : crates.Contract) {parent offset : Nat} {data : Bytes} (low : lo ≤ offset)
    (fits : offset + data.length ≤ hi) :
    Keeps I (dissectTls crates parent data offset) := by
  refine .bind marked (fun _ => .bind allows.setSummary (fun _ => ?_))
  refine .bind (allows.addSection ⟨low, fits⟩) (fun sec => ?_)
  refine .bind (tlsRecords_keeps allows contract _ low fits (by omega)) (fun infos => ?_)
  exact .bind allows.setSummary (fun _ => .pure _)

end

end BitBeak
