import BitBeak.Capture.DispMatch
import BitBeak.Lib.BoolFront

/-! The comparison operators of the display filters: which of them the parser hands to the
comparison that they name. -/
namespace BitBeak.DispFilter
open BoolText Wire

/- The fields of dissected packets. -/

def mapFields : List String :=
  ["frame.protocols", "http.request.method", "http.response.code", "dns.qry.name",
    "tls.handshake.type", "tls.client_random", "tcp.flags.syn"]

def computedFields : List String :=
  ["ip.src", "ip.dst", "tcp.srcport", "udp.srcport", "tcp.dstport", "udp.dstport", "udp.port"]

/-- The fields of a dissected packet and the alias `http.host`. -/
def dissectedFields : List String := mapFields ++ computedFields ++ ["http.host"]

abbrev DissectedField := { name : String // name ∈ dissectedFields }

def Mapped (fields : DisplayFields) : Prop := ∀ entry ∈ fields, entry.1 ∈ mapFields

/-- No other key is in the map. -/
def Within (keys : List String) (fields : DisplayFields) : Prop := ∀ entry ∈ fields, entry.1 ∈ keys

section

variable {keys : List String} {fields : DisplayFields}

theorem Within.insert (within : Within keys fields) {key : String} (known : key ∈ keys)
    (value : String) : Within keys (fields.insert key value) := by
  intro entry member
  rcases List.mem_append.mp member with old | new
  · exact within entry (List.mem_of_mem_filter old)
  · rw [List.mem_singleton.mp new]
    exact known

theorem Within.ite {a b : DisplayFields} {c : Prop} [Decidable c] (left : Within keys a)
    (right : Within keys b) : Within keys (if c then a else b) := by
  split
  · exact left
  · exact right

theorem Within.code (within : Within keys fields) (known : "http.response.code" ∈ keys)
    (info : String) : Within keys (match (splitWhitespace info)[1]? with
      | some code =>
        if hasPrefix info "HTTP " then fields.insert "http.response.code" code else fields
      | none => fields) := by
  split
  · exact (within.insert known _).ite within
  · exact within

theorem Within.http (within : Within keys fields) (method : "http.request.method" ∈ keys)
    (code : "http.response.code" ∈ keys) (info : String) : Within keys (httpFields info fields) := by
  apply Within.code _ code
  split
  · exact (within.insert method _).ite within
  · exact within

theorem Within.dns (within : Within keys fields) (known : "dns.qry.name" ∈ keys) (info : String) :
    Within keys (dnsFields info fields) := by
  unfold dnsFields
  split
  · exact within.insert known _
  · exact within

theorem Within.tls (within : Within keys fields) (type : "tls.handshake.type" ∈ keys)
    (known : "tls.client_random" ∈ keys) (info : String) (random : Option String) :
    Within keys (tlsFields info random fields) := by
  have handshake : Within keys
      (if hasText info "ClientHello" then fields.insert "tls.handshake.type" "1"
      else if hasText info "ServerHello" then fields.insert "tls.handshake.type" "2"
      else fields) :=
    (within.insert type _).ite ((within.insert type _).ite within)
  unfold tlsFields
  dsimp only
  split
  · exact handshake.insert known _
  · exact handshake

theorem Within.tcp (within : Within keys fields) (known : "tcp.flags.syn" ∈ keys) (info : String) :
    Within keys (tcpFields info fields) := by
  unfold tcpFields
  split
  · exact within.insert known _
  · exact within

/-- The fields of a packet, before the flags of TCP are added. -/
theorem populateDisplayFields_within {crates : Crates} {flags : ProtocolFlags}
    {summary : PacketSummary} {data : Bytes} {linkType : LinkType}
    (populated : populateDisplayFields crates flags summary data linkType = .ok fields) :
    ∃ others, Within mapFields.dropLast others ∧
      fields = if flags.tcp then tcpFields summary.info others else others := by
  have first : Within mapFields.dropLast
      (DisplayFields.insert [] "frame.protocols" (buildFrameProtocols flags)) :=
    Within.insert (List.forall_mem_nil _) (by decide) _
  have second :=
    (first.http (by decide) (by decide) summary.info).ite (c := flags.http = true) first
  have third := (second.dns (by decide) summary.info).ite (c := flags.dns = true) second
  unfold populateDisplayFields at populated
  dsimp only at populated
  split at populated
  · obtain ⟨random, _, populated⟩ := ok_of_bind populated
    cases populated
    exact ⟨_, third.tls (by decide) (by decide) summary.info random, rfl⟩
  · cases populated
    exact ⟨_, third, rfl⟩

theorem populateDisplayFields_mapped {crates : Crates} {flags : ProtocolFlags}
    {summary : PacketSummary} {data : Bytes} {linkType : LinkType}
    (populated : populateDisplayFields crates flags summary data linkType = .ok fields) :
    Mapped fields := by
  obtain ⟨others, within, rfl⟩ := populateDisplayFields_within populated
  have mapped : Within mapFields others := fun entry member =>
    List.dropLast_subset _ (within entry member)
  exact (mapped.tcp (by decide) summary.info).ite mapped

end

/-- A name that finds something in a dissected packet is listed. -/
theorem dissected_of_field {pkt : StoredPacket} (mapped : Mapped pkt.fields) {name v : String}
    (found : field pkt name = some v) : name ∈ dissectedFields := by
  have own : ∀ candidate v, ((DisplayFields.get pkt.fields candidate).or
      (fieldHeuristic candidate pkt.flags pkt.summary)).or
        (fieldComputed candidate pkt.summary) = some v → candidate ∈ dissectedFields := by
    intro candidate v found
    rw [Option.or_eq_some_iff, Option.or_eq_some_iff] at found
    rcases found with (got | ⟨_, guessed⟩) | ⟨_, computed⟩
    · obtain ⟨entry, first, _⟩ := Option.map_eq_some_iff.mp got
      have known := mapped entry (List.mem_of_find?_eq_some first)
      have named := List.find?_some (p := fun field : String × String => field.1 == candidate) first
      rw [beq_iff_eq.mp named] at known
      exact List.mem_append_left _ (List.mem_append_left _ known)
    · unfold fieldHeuristic at guessed
      split at guessed
      · decide
      · decide
      · decide
      · cases guessed
    · unfold fieldComputed at computed
      split at computed
      all_goals first | decide | cases computed
  by_cases host : name = "http.host"
  · rw [host]
    decide
  · have single : fieldCandidates name = [name] := by
      unfold fieldCandidates
      split
      · exact absurd rfl host
      · rfl
    rw [field, single, List.findSome?_cons] at found
    split at found
    · next got => exact own name _ got
    · cases found

/- The packets that tell the operators apart. -/

/-- A packet without fields between an endpoint and itself. -/
def lonePacket (endpoint : String) (data : Bytes) : StoredPacket where
  linkType := .ethernet
  data := data
  summary := { src := endpoint, dst := endpoint }

section

variable {endpoint : String} (portless : ':' ∉ endpoint.toList) (data : Bytes)

include portless in
theorem fieldComputed_lone (name : String) :
    fieldComputed name (lonePacket endpoint data).summary =
      if name = "ip.src" ∨ name = "ip.dst" then some endpoint else none := by
  have whole : stripHostPort endpoint = endpoint := by
    rw [stripHostPort, rsplitOnce, if_neg portless]
  have port : endpointPort endpoint = none := by
    rw [endpointPort, rsplitOnce, if_neg portless]
    rfl
  unfold fieldComputed lonePacket
  dsimp only
  rw [whole, port]
  split
  case h_8 src dst _ _ _ _ _ => rw [if_neg (not_or.mpr ⟨src, dst⟩)]
  all_goals rfl

include portless in
/-- Only the two addresses are found. -/
theorem field_lone (name : String) : field (lonePacket endpoint data) name =
    if name = "ip.src" ∨ name = "ip.dst" then some endpoint else none := by
  have own : ∀ candidate, ((DisplayFields.get [] candidate).or
      (fieldHeuristic candidate {} (lonePacket endpoint data).summary)).or
        (fieldComputed candidate (lonePacket endpoint data).summary) =
          if candidate = "ip.src" ∨ candidate = "ip.dst" then some endpoint else none := by
    intro candidate
    have heuristic : fieldHeuristic candidate {} (lonePacket endpoint data).summary = none := by
      unfold fieldHeuristic
      split <;> rfl
    rw [heuristic, ← fieldComputed_lone portless data]
    rfl
  show (fieldCandidates name).findSome? _ = _
  unfold fieldCandidates
  split
  · rfl
  · rw [List.findSome?_singleton]
    exact own _

end

theorem field_lone_marked {endpoint : String} (portless : ':' ∉ endpoint.toList) (data : Bytes)
    {name : String} {c : Char} (mark : c = '=' ∨ c = '!') (member : c ∈ name.toList) :
    field (lonePacket endpoint data) name = none := by
  rw [field_lone portless, if_neg]
  rintro (rfl | rfl)
  · rcases mark with rfl | rfl
    · exact absurd member (by decide)
    · exact absurd member (by decide)
  · rcases mark with rfl | rfl
    · exact absurd member (by decide)
    · exact absurd member (by decide)

/- Where an operator is found. -/

theorem find_outside {c : Char} {pat front : Text} (outside : c ∉ front) (t : Text) :
    find (c :: pat) (front ++ t) = (find (c :: pat) t).map fun x => (front ++ x.1, x.2) := by
  rw [find_eq_cut, find_eq_cut, Occurrence.cut_outside outside]

/-- A field and the blank and the two characters behind it. -/
def opFront (f : FieldName) (c : Char) : Text := f.name.toList ++ [' ', c, '=']

theorem find_word {f : FieldName} {c : Char} (mark : c = '=' ∨ c = '!') {op : FieldOp}
    (word : op = .contains ∨ op = .matching) (t : Text) :
    find op.word (opFront f c ++ t) = (find op.word t).map fun x => (opFront f c ++ x.1, x.2) := by
  obtain ⟨pat, shape⟩ : ∃ pat, op.word = ' ' :: pat := by
    rcases word with rfl | rfl <;> exact ⟨_, rfl⟩
  have first : ¬ op.word.isPrefixOf (' ' :: ([c, '='] ++ t)) = true := by
    rcases word with rfl | rfl <;> rcases mark with rfl | rfl <;> exact Bool.false_ne_true
  have visible : ' ' ∉ [c, '='] := by
    rcases mark with rfl | rfl <;> decide
  rw [shape] at first ⊢
  rw [opFront, List.append_assoc, find_outside (f.outside (by decide)), List.cons_append, find,
    if_neg first, find_outside visible, Option.map_map, Option.map_map]
  simp only [Function.comp_def, List.append_assoc, List.cons_append, List.nil_append]

/-- The name behind a front that ends alike is read alike. -/
theorem parseFieldRef_alike {front front' : Text} (tight : Tight isWhitespace front)
    (tight' : Tight isWhitespace front') (outside : '[' ∉ front) (outside' : '[' ∉ front')
    (last : front.getLast? = front'.getLast?) {t : Text} {name : String}
    {slice : Option FieldSlice} (read : parseFieldRef (front ++ t) = .ok (name, slice)) :
    ∃ more, name = String.ofList (front ++ more) ∧
      parseFieldRef (front' ++ t) = .ok (String.ofList (front' ++ more), slice) := by
  have nonempty : ∀ more, front ++ more ≠ [] ∧ front' ++ more ≠ [] := by
    intro more
    obtain ⟨c, head, _⟩ := tight.first
    obtain ⟨d, head', _⟩ := tight'.first
    constructor
    · intro none
      rw [(List.append_eq_nil_iff.mp none).1] at head
      cases head
    · intro none
      rw [(List.append_eq_nil_iff.mp none).1] at head'
      cases head'
  rw [parseFieldRef, tight.trim_front, find_outside outside] at read
  rw [parseFieldRef, tight'.trim_front, find_outside outside']
  cases found : find ['['] (t.rdropWhile isWhitespace) with
  | none =>
    rw [found] at read
    cases read
    exact ⟨_, rfl, rfl⟩
  | some cut =>
    obtain ⟨base, behind⟩ := cut
    have same : (front ++ t.rdropWhile isWhitespace).getLast? =
        (front' ++ t.rdropWhile isWhitespace).getLast? := by
      rw [List.getLast?_append, List.getLast?_append, last]
    rw [found, Option.map_some] at read
    rw [Option.map_some]
    dsimp only at read ⊢
    rw [tight.trim_front, same, if_neg (nonempty _).1] at read
    rw [tight'.trim_front, if_neg (nonempty _).2]
    split at read
    · cases read
    · next closed =>
      rw [if_neg closed]
      refine ⟨base.rdropWhile isWhitespace, ?_⟩
      split at read
      · obtain ⟨start, first, read⟩ := ok_of_bind read
        obtain ⟨stop, second, read⟩ := ok_of_bind read
        cases read
        refine ⟨rfl, ?_⟩
        rw [first, second]
        rfl
      · obtain ⟨index, single, read⟩ := ok_of_bind read
        cases read
        refine ⟨rfl, ?_⟩
        rw [single]
        rfl

/- A comparison with `!=` and the same with `==`. -/

/-- Some packet is matched by both or by none. -/
def Alike {R : Type} (isMatch : R → String → Bool) (v w : DisplayFilter R) : Prop :=
  ∃ pkt, v.holds isMatch pkt = w.holds isMatch pkt

theorem alike_congruent {R : Type} (regexNew : String → Except String R)
    (isMatch : R → String → Bool) : (dispReader regexNew).Congruent (Alike isMatch) := by
  constructor
  · rintro v w ⟨pkt, same⟩ u
    refine ⟨pkt, ?_⟩
    show (v.holds isMatch pkt || u.holds isMatch pkt) = (w.holds isMatch pkt || u.holds isMatch pkt)
    rw [same]
  · rintro v w ⟨pkt, same⟩ u
    refine ⟨pkt, ?_⟩
    show (v.holds isMatch pkt && u.holds isMatch pkt) = (w.holds isMatch pkt && u.holds isMatch pkt)
    rw [same]

section

variable {f : FieldName} {c : Char}

theorem opFront_tight (f : FieldName) (c : Char) : Tight isWhitespace (opFront f c) := by
  obtain ⟨⟨d, head, visible⟩, _⟩ := f.tight
  refine ⟨⟨d, ?_, visible⟩, ⟨'=', ?_, by decide⟩⟩
  · rw [opFront, List.head?_append, Option.mem_def.mp head]
    rfl
  · rw [opFront, List.getLast?_append]
    rfl

theorem opFront_front (word : f.name ≠ "not") (mark : c = '=' ∨ c = '!') :
    Front isWhitespace (opFront f c) := by
  have blank : ' ' ∉ f.name.toList := f.outside (by decide)
  have flat : ∀ d ∈ opFront f c, d ≠ '(' ∧ d ≠ ')' := by
    intro d member
    rcases List.mem_append.mp member with name | op
    · exact ⟨fun same => f.outside (by decide) (same ▸ name),
        fun same => f.outside (by decide) (same ▸ name)⟩
    · have plain : ∀ d ∈ [' ', c, '='], d ≠ '(' ∧ d ≠ ')' := by
        rcases mark with rfl | rfl <;> simp
      exact plain d op
  have quiet : ∀ sep next, (sep = orSep ∨ sep = andSep) → Quiet sep next 0 (opFront f c) := by
    intro sep next either
    have separates : Separates sep := by
      rcases either with rfl | rfl
      · exact separates_or
      · exact separates_and
    refine quiet_append.mpr ⟨quiet_of_visible separates blank 0, ?_⟩
    generalize 0 + net f.name.toList = depth
    rcases either with rfl | rfl <;> rcases mark with rfl | rfl <;>
      exact ⟨fun here => Bool.false_ne_true here.2, fun here => Bool.false_ne_true here.2,
        fun here => Bool.false_ne_true here.2, trivial⟩
  refine ⟨opFront_tight f c, fun next => quiet orSep next (.inl rfl),
    fun next => quiet andSep next (.inr rfl), (Closed.of_flat flat).level, fun opened => ?_, ?_⟩
  · exact (flat _ (List.mem_of_mem_head? opened)).1 rfl
  · intro t begins
    rw [opFront, List.append_assoc] at begins
    exact word ((f.notWord_blank _).mp begins)

variable {R : Type} {regexNew : String → Except String R} {isMatch : R → String → Bool}

/-- What stands behind the mark is a part of the field, or of no interest. -/
theorem parseFieldOp_ne (f : FieldName) {t : Text} (noContains : find FieldOp.contains.word t = none)
    (noMatches : find FieldOp.matching.word t = none) :
    ∃ op more val, (op = .eqEq ∨ op = .eq) ∧
      parseFieldOp (opFront f '!' ++ t) =
        some (BoolText.trim isWhitespace (f.name.toList ++ [' ', '!'] ++ more), op, val) := by
  have outside : '=' ∉ f.name.toList ++ [' ', '!'] := by
    rw [List.mem_append, not_or]
    exact ⟨f.outside (by decide), by decide⟩
  have spelled : opFront f '!' ++ t = (f.name.toList ++ [' ', '!']) ++ '=' :: t := by
    simp [opFront]
  have first : FieldOp.contains.cut (opFront f '!' ++ t) = none := by
    rw [FieldOp.cut, find_word (.inr rfl) (.inl rfl), noContains]
    rfl
  have second : FieldOp.matching.cut (opFront f '!' ++ t) = none := by
    rw [FieldOp.cut, find_word (.inr rfl) (.inr rfl), noMatches]
    rfl
  rw [parseFieldOp, List.findSome?_cons, first, List.findSome?_cons, second, List.findSome?_cons]
  cases twice : find FieldOp.eqEq.word ('=' :: t) with
  | some cut =>
    obtain ⟨more, val⟩ := cut
    have third : find FieldOp.eqEq.word (opFront f '!' ++ t) =
        some (f.name.toList ++ [' ', '!'] ++ more, val) := by
      rw [spelled, FieldOp.word, find_outside outside]
      rw [FieldOp.word] at twice
      rw [twice]
      rfl
    rw [cut_word third]
    exact ⟨.eqEq, more, _, .inl rfl, rfl⟩
  | none =>
    have third : find FieldOp.eqEq.word (opFront f '!' ++ t) = none := by
      rw [spelled, FieldOp.word, find_outside outside]
      rw [FieldOp.word] at twice
      rw [twice]
      rfl
    have fourth : find FieldOp.eq.word (opFront f '!' ++ t) =
        some (f.name.toList ++ [' ', '!'], t) := by
      have spelled : opFront f '!' ++ t = (f.name.toList ++ [' ', '!']) ++ FieldOp.eq.word ++ t := by
        simp [opFront, FieldOp.word]
      rw [spelled]
      exact find_front outside t
    rw [FieldOp.cut, third, Option.map_none, List.findSome?_cons, cut_word fourth]
    exact ⟨.eq, [], _, .inr rfl, by rw [List.append_nil]⟩

theorem parseFieldOp_equal (f : FieldName) {t : Text}
    (noContains : find FieldOp.contains.word t = none)
    (noMatches : find FieldOp.matching.word t = none) :
    parseFieldOp (opFront f '=' ++ t) =
      some (f.name.toList, .eqEq, BoolText.trim isWhitespace t) := by
  have outside : '=' ∉ f.name.toList ++ [' '] := by
    rw [List.mem_append, not_or]
    exact ⟨f.outside (by decide), by decide⟩
  have first : FieldOp.contains.cut (opFront f '=' ++ t) = none := by
    rw [FieldOp.cut, find_word (.inl rfl) (.inl rfl), noContains]
    rfl
  have second : FieldOp.matching.cut (opFront f '=' ++ t) = none := by
    rw [FieldOp.cut, find_word (.inl rfl) (.inr rfl), noMatches]
    rfl
  have third : find FieldOp.eqEq.word (opFront f '=' ++ t) = some (f.name.toList ++ [' '], t) := by
    have spelled : opFront f '=' ++ t = (f.name.toList ++ [' ']) ++ FieldOp.eqEq.word ++ t := by
      simp [opFront, FieldOp.word]
    rw [spelled]
    exact find_front outside t
  rw [parseFieldOp, List.findSome?_cons, first, List.findSome?_cons, second, List.findSome?_cons,
    cut_word third, trim_blank f.tight]

/-- A word in the value is found behind either operator. -/
theorem parseFieldOp_word {c : Char} (mark : c = '=' ∨ c = '!') (f : FieldName) {t front behind : Text}
    {op : FieldOp} (word : op = .contains ∨ op = .matching) (found : find op.word t = some (front, behind))
    (earlier : op = .matching → find FieldOp.contains.word t = none) :
    parseFieldOp (opFront f c ++ t) =
      some (BoolText.trim isWhitespace (opFront f c ++ front), op, BoolText.trim isWhitespace behind) := by
  have hit : find op.word (opFront f c ++ t) = some (opFront f c ++ front, behind) := by
    rw [find_word mark word, found]
    rfl
  rcases word with rfl | rfl
  · rw [parseFieldOp, List.findSome?_cons, cut_word hit]
  · have first : FieldOp.contains.cut (opFront f c ++ t) = none := by
      rw [FieldOp.cut, find_word mark (.inl rfl), earlier rfl]
      rfl
    rw [parseFieldOp, List.findSome?_cons, first, List.findSome?_cons, cut_word hit]

theorem parseAtom_front {c : Char} (own : ∀ p ∈ ownNames, ¬ p.toList.isPrefixOf f.name.toList = true)
    {t field val : Text} {op : FieldOp}
    (cut : parseFieldOp (opFront f c ++ t.rdropWhile isWhitespace) = some (field, op, val)) :
    parseAtom regexNew (opFront f c ++ t) = fieldFilter regexNew field op val := by
  have unnamed : parseNamed (R := R) (opFront f c ++ t.rdropWhile isWhitespace) = none := by
    rw [opFront, List.append_assoc]
    exact (parseNamed_blank f _).mpr own
  rw [parseAtom, (opFront_tight f c).trim_front, unnamed]
  dsimp only
  rw [cut]

theorem absent_marked {front more : Text} {c : Char} (mark : c = '=' ∨ c = '!') (member : c ∈ front) :
    field (lonePacket "" []) (String.ofList (front ++ more)) = none := by
  refine field_lone_marked (by decide) [] mark ?_
  rw [String.toList_ofList]
  exact List.mem_append_left _ member

/-- A word in the value hides the operator. -/
theorem fieldFilter_carries {op : FieldOp} (word : op = .contains ∨ op = .matching) (t val : Text) :
    Reader.Carries (Alike isMatch)
      (fieldFilter regexNew (BoolText.trim isWhitespace (opFront f '!' ++ t)) op val)
      (fieldFilter regexNew (BoolText.trim isWhitespace (opFront f '=' ++ t)) op val) := by
  intro v read
  have closed : ∀ {c : Char}, c = '=' ∨ c = '!' → '[' ∉ opFront f c := by
    intro c mark
    rw [opFront, List.mem_append, not_or]
    exact ⟨f.outside (by decide), by rcases mark with rfl | rfl <;> decide⟩
  have equals : ∀ c, '=' ∈ opFront f c := fun c => List.mem_append_right _ (by simp)
  have last : (opFront f '!').getLast? = (opFront f '=').getLast? := by
    rw [opFront, opFront, List.getLast?_append, List.getLast?_append]
    rfl
  rw [(opFront_tight f '!').trim_front, fieldFilter] at read
  rw [(opFront_tight f '=').trim_front, fieldFilter]
  obtain ⟨⟨name, slice⟩, ref, read⟩ := ok_of_bind read
  obtain ⟨more, rfl, ref'⟩ := parseFieldRef_alike (opFront_tight f '!') (opFront_tight f '=')
    (closed (.inr rfl)) (closed (.inl rfl)) last ref
  have absent : ∀ c, field (lonePacket "" []) (String.ofList (opFront f c ++ more)) = none :=
    fun c => absent_marked (.inl rfl) (equals c)
  rw [ref']
  rcases word with rfl | rfl
  · cases read
    refine ⟨_, rfl, lonePacket "" [], ?_⟩
    rw [DisplayFilter.holds, DisplayFilter.holds, absent, absent]
  · dsimp only at read
    split at read
    · next re known =>
      cases read
      refine ⟨_, rfl, lonePacket "" [], ?_⟩
      rw [DisplayFilter.holds, DisplayFilter.holds, absent, absent]
    · cases read

/-- The field of `!=` ends in the mark or goes on behind it. -/
theorem fieldFilter_bang {op : FieldOp} (equals : op = .eqEq ∨ op = .eq) {more val : Text}
    {v : DisplayFilter R} (read : fieldFilter regexNew
      (BoolText.trim isWhitespace (f.name.toList ++ [' ', '!'] ++ more)) op val = .ok v) :
    ∃ name slice val', '!' ∈ name.toList ∧ v = .fieldEq name slice val' := by
  have tight : Tight isWhitespace (f.name.toList ++ [' ', '!']) := by
    refine ⟨?_, ⟨'!', ?_, by decide⟩⟩
    · obtain ⟨d, head, visible⟩ := f.tight.first
      refine ⟨d, ?_, visible⟩
      rw [List.head?_append, Option.mem_def.mp head]
      rfl
    · rw [List.getLast?_append]
      rfl
  have closed : '[' ∉ f.name.toList ++ [' ', '!'] := by
    rw [List.mem_append, not_or]
    exact ⟨f.outside (by decide), by decide⟩
  rw [tight.trim_front] at read
  obtain ⟨name, slice, ref, how⟩ := fieldFilter_ok read
  obtain ⟨rest, rfl, _⟩ := parseFieldRef_alike tight tight closed closed rfl ref
  have bang : '!' ∈ (String.ofList (f.name.toList ++ [' ', '!'] ++ rest)).toList := by
    rw [String.toList_ofList]
    exact List.mem_append_left _ (List.mem_append_right _ (by decide))
  rcases how with ⟨rfl, _⟩ | ⟨rfl, _⟩ | ⟨_, same⟩
  · rcases equals with other | other <;> cases other
  · rcases equals with other | other <;> cases other
  · exact ⟨_, slice, _, bang, same⟩

/-- No value is that of every endpoint. -/
theorem exists_other (isMatch : R → String → Bool) (name val : String) :
    ∃ endpoint : String, ':' ∉ endpoint.toList ∧
      (DisplayFilter.fieldEq name none val).holds isMatch (lonePacket endpoint []) = false := by
  have misses : ∀ endpoint : String, ':' ∉ endpoint.toList → eqIgnoreAsciiCase endpoint val = false →
      (DisplayFilter.fieldEq name none val).holds isMatch (lonePacket endpoint []) = false := by
    intro endpoint portless other
    rw [DisplayFilter.holds, field_lone portless]
    split
    · exact other
    · rfl
  by_cases empty : val = ""
  · refine ⟨"-", by decide, misses _ (by decide) ?_⟩
    rw [empty]
    decide
  · refine ⟨"", by decide, misses _ (by decide) ?_⟩
    rw [eqIgnoreAsciiCase, beq_eq_false_iff_ne]
    intro same
    exact empty (String.toList_inj.mp (List.map_eq_nil_iff.mp same.symm))

/-- The value is compared with a field that is no field. -/
theorem parseAtom_carries (own : ∀ p ∈ ownNames, ¬ p.toList.isPrefixOf f.name.toList = true)
    (t : Text) : Reader.Carries (Alike isMatch) (parseAtom regexNew (opFront f '!' ++ t))
      (parseAtom regexNew (opFront f '=' ++ t)) := by
  cases hasContains : find FieldOp.contains.word (t.rdropWhile isWhitespace) with
  | some cut =>
    obtain ⟨front, behind⟩ := cut
    have word : ∀ {c : Char}, c = '=' ∨ c = '!' → parseAtom regexNew (opFront f c ++ t) =
        fieldFilter regexNew (BoolText.trim isWhitespace (opFront f c ++ front)) .contains
          (BoolText.trim isWhitespace behind) := fun mark =>
      parseAtom_front own (parseFieldOp_word mark f (.inl rfl) hasContains fun other => nomatch other)
    rw [word (.inr rfl), word (.inl rfl)]
    exact fieldFilter_carries (.inl rfl) front _
  | none =>
    cases hasMatches : find FieldOp.matching.word (t.rdropWhile isWhitespace) with
    | some cut =>
      obtain ⟨front, behind⟩ := cut
      have word : ∀ {c : Char}, c = '=' ∨ c = '!' → parseAtom regexNew (opFront f c ++ t) =
          fieldFilter regexNew (BoolText.trim isWhitespace (opFront f c ++ front)) .matching
            (BoolText.trim isWhitespace behind) := fun mark =>
        parseAtom_front own (parseFieldOp_word mark f (.inr rfl) hasMatches fun _ => hasContains)
      rw [word (.inr rfl), word (.inl rfl)]
      exact fieldFilter_carries (.inr rfl) front _
    | none =>
      obtain ⟨op, more, val, equals, cut⟩ := parseFieldOp_ne f hasContains hasMatches
      rw [parseAtom_front own cut, parseAtom_front own (parseFieldOp_equal f hasContains hasMatches)]
      intro v read
      obtain ⟨name, slice, val', bang, rfl⟩ := fieldFilter_bang equals read
      obtain ⟨endpoint, portless, misses⟩ :=
        exists_other isMatch f.name
          (unquote (BoolText.trim isWhitespace (t.rdropWhile isWhitespace)))
      rw [fieldFilter, parseFieldRef_name]
      refine ⟨_, rfl, lonePacket endpoint [], ?_⟩
      rw [misses, DisplayFilter.holds, field_lone_marked portless [] (.inr rfl) bang]
      rfl

end

/- The texts of the comparisons. -/

section

variable {R : Type} (regexNew : String → Except String R) (isMatch : R → String → Bool)

/-- A packet is matched. -/
def Matches (pkt : StoredPacket) (filter : DisplayFilter R) : Prop :=
  filter.matchesPacket isMatch pkt = .ok true

def neText (name value : String) : String := name ++ " != " ++ value
def eqText (name value : String) : String := name ++ " == " ++ value

/-- `name != value` matches the packets that `name == value` does not match. -/
def NeHolds (name value : String) : Prop :=
  ∃ f, parseDisplayFilter regexNew (neText name value) = .ok f ∧ ∀ pkt,
    Matches isMatch pkt f ↔
      ¬ ∃ g, parseDisplayFilter regexNew (eqText name value) = .ok g ∧ Matches isMatch pkt g

/-- The operators between `frame.len` and a number. -/
inductive LenOp where
  | eqEq
  | eq
  | ne
  | lt
  | gt
  | le
  | ge
  deriving DecidableEq, Repr

def LenOp.text : LenOp → String
  | eqEq => "=="
  | eq => "="
  | ne => "!="
  | lt => "<"
  | gt => ">"
  | le => "<="
  | ge => ">="

/-- What an operator says of two numbers. -/
def LenOp.Says : LenOp → Nat → Nat → Prop
  | eqEq, a, b | eq, a, b => a = b
  | ne, a, b => a ≠ b
  | lt, a, b => a < b
  | gt, a, b => a > b
  | le, a, b => a ≤ b
  | ge, a, b => a ≥ b

def lenText (op : LenOp) (n : Nat) : String := "frame.len " ++ op.text ++ " " ++ toString n

/-- `frame.len op n` matches the packets whose length is in that relation to `n`. -/
def LenHolds (op : LenOp) (n : Nat) : Prop :=
  ∃ f, parseDisplayFilter regexNew (lenText op n) = .ok f ∧ ∀ pkt,
    Matches isMatch pkt f ↔ op.Says pkt.data.length n

variable {regexNew isMatch}

theorem dissectedField_facts : ∀ name ∈ dissectedFields, name.toList ≠ [] ∧
    name.toList.all fieldChar = true ∧ name ≠ "not" ∧
      (name = "udp.port" ∨ ∀ p ∈ ownNames, ¬ p.toList.isPrefixOf name.toList = true) := by
  decide +kernel

theorem parseDisplayFilter_front {front : Text} (fronted : Front isWhitespace front) (text : String)
    {t : Text} (spelled : text.toList = front ++ t) : parseDisplayFilter regexNew text =
      (dispReader regexNew).readOr ((dispReader regexNew).readNot
        ((front ++ t.rdropWhile isWhitespace).length + 1)) (front ++ t.rdropWhile isWhitespace) := by
  have nonempty : front ++ t.rdropWhile isWhitespace ≠ [] := by
    obtain ⟨c, head, _⟩ := fronted.tight.first
    intro none
    rw [(List.append_eq_nil_iff.mp none).1] at head
    cases head
  rw [parseDisplayFilter, spelled, fronted.tight.trim_front, if_neg nonempty]
  rfl

theorem isWhitespace_blank : isWhitespace ' ' = true := by decide

/-- A name that has atoms of its own, in front of a blank. -/
theorem parseNamed_own (own : String × (Text → Except DispFilterError (DisplayFilter R)))
    (member : own ∈ ownAtoms) (rest : Text) :
    parseNamed (own.1.toList ++ ' ' :: rest) = some (own.2 (' ' :: rest)) := by
  rw [parseNamed, not_proto (List.mem_append_right _ List.mem_cons_self)]
  simp only [ownAtoms, List.mem_cons, List.not_mem_nil, or_false] at member
  rcases member with rfl | rfl | rfl | rfl <;> simp [ownAtoms, stripFront]

theorem parseNamed_udp (rest : Text) : parseNamed (R := R) ("udp.port".toList ++ ' ' :: rest) =
    some (do return .udpPort (← parseEqU16 (' ' :: rest))) :=
  parseNamed_own ("udp.port", fun rest => do return .udpPort (← parseEqU16 rest))
    (by simp [ownAtoms]) rest

/-- A mark is no digit. -/
theorem parseEqU16_mark (t : Text) :
    parseEqU16 (' ' :: '!' :: t) = .error (.parse IntErrorKind.invalidDigit.text) := by
  have tight : Tight isWhitespace ['!'] := ⟨⟨'!', rfl, by decide⟩, ⟨'!', rfl, by decide⟩⟩
  have bare : ∀ t : Text, BoolText.trim isWhitespace ('!' :: t) = '!' :: t.rdropWhile isWhitespace :=
    tight.trim_front
  have value : behindEq (' ' :: '!' :: t) =
      '!' :: (t.rdropWhile isWhitespace).rdropWhile isWhitespace := by
    rw [behindEq, trim_blank_cons, bare, trimEqEq, List.dropWhile_cons_of_neg (by decide), bare]
    intro rest other
    cases other
  rw [parseEqU16, value, parsedNum, parseInt, String.toList_ofList]
  rfl

theorem parseAtom_udp {f : FieldName} (name : f.name = "udp.port") (t : Text) :
    parseAtom regexNew (opFront f '!' ++ t) = .error (.parse IntErrorKind.invalidDigit.text) := by
  rw [parseAtom, (opFront_tight f '!').trim_front, opFront, List.append_assoc, name, List.cons_append,
    parseNamed_udp, List.cons_append, parseEqU16_mark]
  rfl

theorem matches_iff {pkt : StoredPacket} {f : DisplayFilter R} :
    Matches isMatch pkt f ↔ f.holds isMatch pkt = true := by
  rw [Matches, DisplayFilter.matchesPacket_ok, Except.ok.injEq]

/-- A text with `!=` is matched by some packet that the text with `==` matches too, or by none of
the two. -/
theorem ne_alike {f : FieldName} (word : f.name ≠ "not")
    (own : f.name = "udp.port" ∨ ∀ p ∈ ownNames, ¬ p.toList.isPrefixOf f.name.toList = true)
    {value : String} {v : DisplayFilter R}
    (read : parseDisplayFilter regexNew (neText f.name value) = .ok v) :
    ∃ w, parseDisplayFilter regexNew (eqText f.name value) = .ok w ∧ Alike isMatch v w := by
  have left : Front isWhitespace (opFront f '!') := opFront_front word (.inr rfl)
  have right : Front isWhitespace (opFront f '=') := opFront_front word (.inl rfl)
  have neSpelled : (neText f.name value).toList = opFront f '!' ++ ' ' :: value.toList := by
    simp [neText, opFront]
  have eqSpelled : (eqText f.name value).toList = opFront f '=' ++ ' ' :: value.toList := by
    simp [eqText, opFront]
  have atoms : ∀ t, Reader.Carries (Alike isMatch) ((dispReader regexNew).atom (opFront f '!' ++ t))
      ((dispReader regexNew).atom (opFront f '=' ++ t)) := by
    intro t
    rw [dispReader_atom]
    rcases own with udp | own
    · intro v read
      rw [parseAtom_udp udp] at read
      cases read
    · exact parseAtom_carries own t
  have fuel : ∀ c, (opFront f c ++ (' ' :: value.toList).rdropWhile isWhitespace).length + 1 =
      f.name.toList.length + 3 + ((' ' :: value.toList).rdropWhile isWhitespace).length + 1 := by
    intro c
    rw [opFront, List.length_append, List.length_append]
    rfl
  rw [parseDisplayFilter_front left _ neSpelled, fuel] at read
  rw [parseDisplayFilter_front right _ eqSpelled, fuel]
  exact Reader.readOr_carries (alike_congruent regexNew isMatch) left right atoms _ _ v read

/-- No comparison with `!=` does what it says. -/
theorem not_neHolds (field : DissectedField) (value : String) :
    ¬ NeHolds regexNew isMatch field.val value := by
  obtain ⟨nonempty, chars, word, own⟩ := dissectedField_facts field.val field.property
  rintro ⟨v, read, complement⟩
  obtain ⟨w, read', pkt, alike⟩ :=
    @ne_alike R regexNew isMatch ⟨field.val, nonempty, List.all_eq_true.mp chars⟩ word own value v read
  have single : (∃ g, parseDisplayFilter regexNew (eqText field.val value) = .ok g ∧
      Matches isMatch pkt g) ↔ Matches isMatch pkt v := by
    constructor
    · rintro ⟨g, other, matched⟩
      have same : w = g := Except.ok.inj (read'.symm.trans other)
      rw [← same, matches_iff] at matched
      exact matches_iff.mpr (alike.trans matched)
    · intro matched
      exact ⟨w, read', matches_iff.mpr (alike.symm.trans (matches_iff.mp matched))⟩
  have both := complement pkt
  rw [single] at both
  exact iff_not_self both

/- The length of a frame. -/

def lenWords (op : LenOp) (n : Nat) : List String := ["frame.len", op.text, toString n]

theorem lenWords_plain (op : LenOp) (n : Nat) :
    PlainWords isWhitespace ((lenWords op n).map String.toList) := by
  have front : PlainWord "frame.len" := by decide
  have middle : PlainWord op.text := by
    cases op <;> decide
  exact plainWords_of (List.cons_ne_nil _ _) (List.forall_mem_cons.mpr ⟨front,
    List.forall_mem_cons.mpr ⟨middle, List.forall_mem_singleton.mpr (plainWord_toString n)⟩⟩)

theorem lenText_words (op : LenOp) (n : Nat) :
    (lenText op n).toList = spaced ((lenWords op n).map String.toList) := by
  simp [lenText, lenWords, spaced, List.intercalate, List.intersperse]

theorem parse_lenText (op : LenOp) (n : Nat) :
    parseDisplayFilter regexNew (lenText op n) = parseAtom regexNew (lenText op n).toList := by
  have words := lenWords_plain op n
  have nonempty : spaced ((lenWords op n).map String.toList) ≠ [] := by
    intro none
    obtain ⟨c, head, _⟩ := words.tight.first
    rw [none] at head
    cases head
  rw [parseDisplayFilter, lenText_words, words.tight.trim_eq, if_neg nonempty, ← dispReader_atom]
  have blank : (dispReader regexNew).white ' ' = true := isWhitespace_blank
  exact PlainWords.read words blank

/-- The words `contains` and `matches` are not in the text. -/
theorem lenText_wordless (op : LenOp) (n : Nat) {word : FieldOp}
    (either : word = .contains ∨ word = .matching) : word.cut (lenText op n).toList = none := by
  rw [cut_none_iff]
  intro inside
  have words := lenWords_plain op n
  obtain ⟨inner, shape, nonempty, solid, front, middle, c, here, digitless⟩ :
      ∃ inner : Text, word.word = ' ' :: (inner ++ [' ']) ∧ inner ≠ [] ∧ ' ' ∉ inner ∧
        inner ≠ "frame.len".toList ∧ inner ≠ op.text.toList ∧ ∃ c ∈ inner, c.isDigit = false := by
    rcases either with rfl | rfl
    · refine ⟨['c', 'o', 'n', 't', 'a', 'i', 'n', 's'], rfl, by decide, by decide, by decide, ?_,
        'c', by decide, by decide⟩
      cases op <;> decide
    · refine ⟨['m', 'a', 't', 'c', 'h', 'e', 's'], rfl, by decide, by decide, by decide, ?_,
        'm', by decide, by decide⟩
      cases op <;> decide
  have wider : word.word <:+: ' ' :: ((lenText op n).toList ++ [' ']) :=
    inside.trans ⟨[' '], [' '], rfl⟩
  rw [lenText_words, shape] at wider
  have member := infix_spaced words.some (words.unblanked (by decide)) nonempty solid wider
  obtain ⟨w, listed, rfl⟩ := List.mem_map.mp member
  rw [lenWords, List.mem_cons, List.mem_cons, List.mem_singleton] at listed
  rcases listed with rfl | rfl | rfl
  · exact front rfl
  · exact middle rfl
  · exact outside_toString digitless here

theorem lenText_spelled (op : LenOp) (n : Nat) : (lenText op n).toList =
    "frame.len".toList ++ ' ' :: (op.text.toList ++ ' ' :: (toString n).toList) := by
  simp [lenText]

theorem parseNamed_lenText (op : LenOp) (n : Nat) :
    parseNamed (R := R) (lenText op n).toList = none := by
  rw [lenText_spelled]
  exact (parseNamed_blank ⟨"frame.len", by decide, List.all_eq_true.mp (by decide)⟩ _).mpr (by decide)

theorem parseAtom_lenText (op : LenOp) (n : Nat) : parseAtom regexNew (lenText op n).toList =
    match [FieldOp.eqEq, .eq].findSome? fun op' => op'.cut (lenText op n).toList with
    | some (field, op', val) => fieldFilter regexNew field op' val
    | none => parseRest (lenText op n).toList := by
  have tight : Tight isWhitespace (lenText op n).toList := by
    rw [lenText_words]
    exact (lenWords_plain op n).tight
  have cuts : parseFieldOp (lenText op n).toList =
      [FieldOp.eqEq, .eq].findSome? fun op' => op'.cut (lenText op n).toList := by
    rw [parseFieldOp, List.findSome?_cons, lenText_wordless op n (.inl rfl), List.findSome?_cons,
      lenText_wordless op n (.inr rfl)]
  rw [parseAtom, tight.trim_eq, parseNamed_lenText]
  generalize parseFieldOp (lenText op n).toList = found at cuts ⊢
  subst cuts
  rfl

/-- An operator with an equals sign is taken for a comparison of a field. -/
theorem parse_lenText_field {op : LenOp} (equals : '=' ∈ op.text.toList) {n : Nat}
    {v : DisplayFilter R} (read : parseDisplayFilter regexNew (lenText op n) = .ok v) :
    ∃ more slice val, v = .fieldEq (String.ofList ("frame.len".toList ++ more)) slice val := by
  have tight : Tight isWhitespace "frame.len".toList :=
    ⟨⟨'f', by decide, by decide⟩, ⟨'n', by decide, by decide⟩⟩
  have inside : '=' ∈ (lenText op n).toList := by
    rw [lenText_spelled]
    exact List.mem_append_right _ (List.mem_cons_of_mem _ (List.mem_append_left _ equals))
  rw [parse_lenText, parseAtom_lenText] at read
  split at read
  · next field op' val cut =>
    obtain ⟨op'', listed, cut⟩ := List.exists_of_findSome?_eq_some cut
    obtain ⟨⟨front, behind⟩, found, same⟩ := Option.map_eq_some_iff.mp cut
    cases same
    have opens : ∃ more, front = "frame.len".toList ++ more := by
      obtain ⟨pat, shape⟩ : ∃ pat, op'.word = '=' :: pat := by
        rw [List.mem_cons, List.mem_singleton] at listed
        rcases listed with rfl | rfl <;> exact ⟨_, rfl⟩
      rw [lenText_spelled, shape, find_outside (by decide)] at found
      obtain ⟨⟨more, _⟩, _, same⟩ := Option.map_eq_some_iff.mp found
      cases same
      exact ⟨more, rfl⟩
    obtain ⟨more, rfl⟩ := opens
    rw [tight.trim_front] at read
    obtain ⟨name, slice, ref, how⟩ := fieldFilter_ok read
    obtain ⟨rest, rfl, _⟩ := parseFieldRef_alike tight tight (by decide) (by decide) rfl ref
    rcases how with ⟨rfl, _⟩ | ⟨rfl, _⟩ | ⟨_, same⟩
    · exact absurd listed (by decide)
    · exact absurd listed (by decide)
    · exact ⟨rest, slice, _, same⟩
  · next uncut =>
    have single : FieldOp.eq.cut (lenText op n).toList = none :=
      List.findSome?_eq_none_iff.mp uncut .eq (by decide)
    rw [cut_none_iff] at single
    obtain ⟨front, behind, whole⟩ := List.append_of_mem inside
    exact absurd ⟨front, behind, by rw [whole, List.append_assoc]; rfl⟩ single

/-- The two others are read as they are meant. -/
theorem cmpWords_bare {op : LenOp} {cmp : Cmp}
    (bare : (op = .lt ∧ cmp = .lt) ∨ (op = .gt ∧ cmp = .gt)) (v : Text) :
    cmpWords.findSome? (fun (word, op') =>
      (stripFront word (op.text.toList ++ ' ' :: v)).map fun v => (op', v)) =
        some (cmp, ' ' :: v) := by
  rcases bare with ⟨rfl, rfl⟩ | ⟨rfl, rfl⟩ <;> rfl

theorem parse_lenText_bare {op : LenOp} {cmp : Cmp}
    (bare : (op = .lt ∧ cmp = .lt) ∨ (op = .gt ∧ cmp = .gt)) (n : Nat) :
    parseDisplayFilter regexNew (lenText op n) = do
      return .frameLen cmp (← parsedNum (2 ^ 64) (toString n).toList) := by
  have numeral : '=' ∉ (toString n).toList := outside_toString (by decide)
  have outside : '=' ∉ (lenText op n).toList := by
    have front : '=' ∉ "frame.len".toList := by decide
    have middle : '=' ∉ op.text.toList := by
      rcases bare with ⟨rfl, _⟩ | ⟨rfl, _⟩ <;> decide
    rw [lenText_spelled, List.mem_append, List.mem_cons, List.mem_append, List.mem_cons]
    rintro (here | blank | here | blank | here)
    · exact front here
    · exact absurd blank (by decide)
    · exact middle here
    · exact absurd blank (by decide)
    · exact numeral here
  have uncut : [FieldOp.eqEq, .eq].findSome? (fun op' => op'.cut (lenText op n).toList) = none := by
    rw [List.findSome?_eq_none_iff]
    intro op' listed
    rw [cut_none_iff]
    intro inside
    rw [List.mem_cons, List.mem_singleton] at listed
    rcases listed with rfl | rfl
    · exact outside (inside.subset (by decide))
    · exact outside (inside.subset (by decide))
  have words := lenWords_plain op n
  have solid : ∀ w ∈ [op.text.toList, (toString n).toList], w ≠ [] ∧ ∀ c ∈ w, isWhitespace c = false :=
    fun w member => ⟨(words.solid w (List.mem_cons_of_mem _ member)).1,
      fun c here => ((words.solid w (List.mem_cons_of_mem _ member)).2 c here).1⟩
  have rest := spaced_tight (List.cons_ne_nil _ _) solid
  have digits := spaced_tight (List.cons_ne_nil _ _) fun w member =>
    solid w (List.mem_cons_of_mem _ member)
  rw [spaced_cons _ (List.cons_ne_nil _ _), spaced, List.intercalate_singleton] at rest
  rw [spaced, List.intercalate_singleton] at digits
  have strip : stripFront "frame.len".toList (lenText op n).toList =
      some (' ' :: (op.text.toList ++ ' ' :: (toString n).toList)) := by
    rw [lenText_spelled, stripFront, if_pos, List.drop_left]
    exact List.isPrefixOf_iff_prefix.mpr (List.prefix_append _ _)
  rw [parse_lenText, parseAtom_lenText, uncut]
  dsimp only
  rw [parseRest, strip]
  dsimp only
  rw [parseCmpUsize, trim_blank_cons, rest.trim_eq]
  rw [cmpWords_bare bare]
  dsimp only
  rw [trim_blank_cons, digits.trim_eq]
  cases parsedNum (2 ^ 64) (toString n).toList <;> rfl

theorem parsedNum_toString {limit n : Nat} (small : n < limit) :
    parsedNum limit (toString n).toList = .ok n := by
  rw [parsedNum, String.ofList_toList, parseInt_toString small]
  rfl

theorem lt_of_parsedNum {limit n m : Nat} (read : parsedNum limit (toString n).toList = .ok m) :
    n < limit := by
  rw [parsedNum, String.ofList_toList] at read
  cases parsed : parseInt limit (toString n) with
  | error e =>
    rw [parsed] at read
    cases read
  | ok k => exact lt_of_parseInt_toString parsed

/-- A packet of any length. -/
def sizedPacket (len : Nat) : StoredPacket := lonePacket "" (List.replicate len 0)

theorem not_lenHolds {op : LenOp} (equals : '=' ∈ op.text.toList) (n : Nat) :
    ¬ LenHolds regexNew isMatch op n := by
  rintro ⟨v, read, exactly⟩
  obtain ⟨more, slice, val, rfl⟩ := parse_lenText_field equals read
  have missed : ∀ len, ¬ op.Says len n := by
    intro len stands
    have length : (sizedPacket len).data.length = len := List.length_replicate
    have other : ∀ name : String, name.toList.head? = some 'i' →
        String.ofList ("frame.len".toList ++ more) ≠ name := by
      intro name head same
      rw [← same, String.toList_ofList, List.head?_append] at head
      exact absurd head (by simp)
    have matched := (exactly (sizedPacket len)).mpr (length.symm ▸ stands)
    rw [matches_iff, DisplayFilter.holds, sizedPacket, field_lone (by decide),
      if_neg (not_or.mpr ⟨other _ (by decide), other _ (by decide)⟩)] at matched
    cases matched
  cases op with
  | eqEq => exact missed n rfl
  | eq => exact missed n rfl
  | ne => exact missed (n + 1) (Nat.succ_ne_self n)
  | le => exact missed n (Nat.le_refl n)
  | ge => exact missed n (Nat.le_refl n)
  | lt => exact absurd equals (by decide)
  | gt => exact absurd equals (by decide)

theorem lenHolds_iff {op : LenOp} {cmp : Cmp}
    (bare : (op = .lt ∧ cmp = .lt) ∨ (op = .gt ∧ cmp = .gt)) (n : Nat) :
    LenHolds regexNew isMatch op n ↔ n < 2 ^ 64 := by
  constructor
  · rintro ⟨v, read, _⟩
    rw [parse_lenText_bare bare] at read
    obtain ⟨m, parsed, _⟩ := ok_of_bind read
    exact lt_of_parsedNum parsed
  · intro small
    refine ⟨.frameLen cmp n, ?_, fun pkt => ?_⟩
    · rw [parse_lenText_bare bare, parsedNum_toString small]
      rfl
    · rw [matches_iff, DisplayFilter.holds]
      rcases bare with ⟨rfl, rfl⟩ | ⟨rfl, rfl⟩ <;> exact decide_eq_true_iff

end

/-- The length is compared as the text says exactly by `<` and `>` with a number of 64 bits, and
no comparison with `!=` is the complement of the one with `==`. -/
theorem comparisons_hold_iff {R : Type} (regexNew : String → Except String R)
    (isMatch : R → String → Bool) :
    (∀ op n, LenHolds regexNew isMatch op n ↔ (op = .lt ∨ op = .gt) ∧ n < 2 ^ 64) ∧
      ∀ (field : DissectedField) (value : String), ¬ NeHolds regexNew isMatch field.val value := by
  refine ⟨fun op n => ?_, not_neHolds⟩
  by_cases equals : '=' ∈ op.text.toList
  · have other : ¬ (op = .lt ∨ op = .gt) := by
      rintro (rfl | rfl) <;> exact absurd equals (by decide)
    exact iff_of_false (not_lenHolds equals n) fun both => other both.1
  · cases op with
    | lt => exact (lenHolds_iff (.inl ⟨rfl, rfl⟩) n).trans (and_iff_right (.inl rfl)).symm
    | gt => exact (lenHolds_iff (.inr ⟨rfl, rfl⟩) n).trans (and_iff_right (.inr rfl)).symm
    | _ => exact absurd (by decide) equals

/-- The packet of a request with the method POST. -/
def postPacket : StoredPacket where
  linkType := .ethernet
  data := []
  flags := { tcp := true, http := true }
  summary := { src := "10.0.0.1:50000", dst := "10.0.0.2:80", protocol := "HTTP", info := "POST /" }
  fields := [("frame.protocols", "tcp:http"), ("http.request.method", "POST")]

def noMatch (_ : Unit) (_ : String) : Bool := false

/-- 200 octets are not matched by `frame.len >= 100`, and a POST is matched neither by
`http.request.method != "GET"` nor by the comparison with `==`. -/
theorem equals_sign_is_taken_for_a_field :
    (parseDisplayFilter noRegex (lenText .ge 100) = .ok (.fieldEq "frame.len >" none "100") ∧
      ¬ Matches noMatch (sizedPacket 200) (.fieldEq "frame.len >" none "100") ∧
        ¬ LenHolds noRegex noMatch .ge 100) ∧
      parseDisplayFilter noRegex (neText "http.request.method" "\"GET\"") =
          .ok (.fieldEq "http.request.method !" none "GET") ∧
        parseDisplayFilter noRegex (eqText "http.request.method" "\"GET\"") =
            .ok (.fieldEq "http.request.method" none "GET") ∧
          ¬ Matches noMatch postPacket (.fieldEq "http.request.method !" none "GET") ∧
            ¬ Matches noMatch postPacket (.fieldEq "http.request.method" none "GET") ∧
              ¬ NeHolds noRegex noMatch "http.request.method" "\"GET\"" := by
  have long : parseDisplayFilter noRegex (lenText .ge 100) =
      .ok (.fieldEq "frame.len >" none "100") := by decide +kernel
  have missed : ¬ Matches noMatch (sizedPacket 200) (.fieldEq "frame.len >" none "100") := by
    rw [matches_iff]
    decide +kernel
  have other : parseDisplayFilter noRegex (neText "http.request.method" "\"GET\"") =
      .ok (.fieldEq "http.request.method !" none "GET") := by decide +kernel
  have same : parseDisplayFilter noRegex (eqText "http.request.method" "\"GET\"") =
      .ok (.fieldEq "http.request.method" none "GET") := by decide +kernel
  have notOther : ¬ Matches noMatch postPacket (.fieldEq "http.request.method !" none "GET") := by
    rw [matches_iff]
    decide +kernel
  have notSame : ¬ Matches noMatch postPacket (.fieldEq "http.request.method" none "GET") := by
    rw [matches_iff]
    decide +kernel
  refine ⟨⟨long, missed, ?_⟩, other, same, notOther, notSame, ?_⟩
  · rintro ⟨f, read, exactly⟩
    cases read.symm.trans long
    have length : (sizedPacket 200).data.length = 200 := List.length_replicate
    refine missed ((exactly _).mpr ?_)
    rw [length]
    exact (by decide : 200 ≥ 100)
  · rintro ⟨f, read, complement⟩
    cases read.symm.trans other
    refine notOther ((complement postPacket).mpr ?_)
    rintro ⟨g, read', matched⟩
    cases read'.symm.trans same
    exact notSame matched

end BitBeak.DispFilter
