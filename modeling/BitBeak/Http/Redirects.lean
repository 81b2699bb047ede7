import BitBeak.Http.Client
import Mathlib.Data.List.Forall2

/-! The redirect loop against any server: how often it asks, what chain it records, and what
becomes of method and body on the way. -/
namespace BitBeak.Http
open Wire

def issuedMethod (crates : HttpCrates) (method : String) : String :=
  if crates.validMethod method then method else "GET"

/-- Method and body after the replies that were followed. -/
def carried (spec : HttpRequestSpec) (replies : List HttpReply) : String × Bytes :=
  if replies.any (fun reply => rewritesMethod reply.status) then ("GET", [])
  else (spec.method, spec.body)

/-- The chain entry of a followed reply. -/
def FollowedHop (hop : RedirectHop) (reply : HttpReply) : Prop :=
  hop.status = reply.status ∧ isRedirect reply.status = true ∧
    headerValue "location" reply.headers = some hop.location

/-- Every request has the method and the body that the replies before it left. -/
def Issued (crates : HttpCrates) (spec : HttpRequestSpec) (requests : List HttpRequest)
    (replies : List HttpReply) : Prop :=
  ∀ (i : Nat) (req : HttpRequest), requests[i]? = some req →
    req.method = issuedMethod crates (carried spec (replies.take i)).1 ∧
      req.body = (carried spec (replies.take i)).2

/-- What holds at the head of the loop. -/
structure Hopping (crates : HttpCrates) (spec : HttpRequestSpec) (st : HopState) : Prop where
  bounded : st.hops.toNat ≤ spec.maxRedirects.toNat
  asked : st.requests.length = st.hops.toNat
  answered : st.replies.length = st.hops.toNat
  chain : List.Forall₂ FollowedHop st.chain st.replies
  carried : (st.method, st.body) = carried spec st.replies
  issued : Issued crates spec st.requests st.replies

/-- What holds of a finished run. -/
structure Redirected (crates : HttpCrates) (spec : HttpRequestSpec) (sent : Sent) : Prop where
  bounded : sent.requests.length ≤ spec.maxRedirects.toNat + 1
  issued : Issued crates spec sent.requests sent.replies
  chain : ∀ resp, sent.result = .ok resp → ∃ followed last,
    sent.replies = followed ++ [last] ∧ List.Forall₂ FollowedHop resp.redirectChain followed ∧
      sent.requests.length = resp.redirectChain.length + 1

theorem carried_append (spec : HttpRequestSpec) (replies : List HttpReply) (reply : HttpReply) :
    carried spec (replies ++ [reply]) =
      applyRedirectMethod reply.status (carried spec replies).1 (carried spec replies).2 := by
  unfold carried applyRedirectMethod
  rw [List.any_append, List.any_cons, List.any_nil, Bool.or_false]
  cases replies.any (fun reply => rewritesMethod reply.status) <;>
    cases rewritesMethod reply.status <;> rfl

theorem issued_append {crates : HttpCrates} {spec : HttpRequestSpec} {requests : List HttpRequest}
    {replies : List HttpReply} {req : HttpRequest} (issued : Issued crates spec requests replies)
    (level : replies.length = requests.length)
    (method : req.method = issuedMethod crates (carried spec replies).1)
    (body : req.body = (carried spec replies).2) :
    Issued crates spec (requests ++ [req]) replies := by
  intro i other found
  rw [List.getElem?_append] at found
  split at found
  · exact issued i other found
  · next past =>
    have single := List.mem_singleton.mp (List.mem_of_getElem? found)
    have whole : replies.take i = replies := List.take_of_length_le (by omega)
    rw [single, whole]
    exact ⟨method, body⟩

/-- A reply more says nothing about the requests before it. -/
theorem issued_reply {crates : HttpCrates} {spec : HttpRequestSpec} {requests : List HttpRequest}
    {replies : List HttpReply} (issued : Issued crates spec requests replies)
    (level : requests.length ≤ replies.length + 1) (reply : HttpReply) :
    Issued crates spec requests (replies ++ [reply]) := by
  intro i req found
  have inside := (List.getElem?_eq_some_iff.mp found).1
  have front : (replies ++ [reply]).take i = replies.take i :=
    List.take_append_of_le_length (by omega)
  rw [front]
  exact issued i req found

section

variable {crates : HttpCrates} {spec : HttpRequestSpec} {st : HopState}

/-- The request that the head of the loop sends next. -/
theorem issued_next (hopping : Hopping crates spec st) :
    Issued crates spec (st.requests ++ [st.request crates spec]) st.replies := by
  have method : st.method = (carried spec st.replies).1 := congrArg Prod.fst hopping.carried
  have body : st.body = (carried spec st.replies).2 := congrArg Prod.snd hopping.carried
  apply issued_append hopping.issued (hopping.answered.trans hopping.asked.symm)
  · rw [HopState.request, issuedMethod, ← method]
  · rw [HopState.request, ← body]

/-- Below the limit the counter does not wrap. -/
theorem hops_succ {hops limit : UInt8} (left : hops < limit) :
    hops ≠ 255 ∧ (hops + 1).toNat = hops.toNat + 1 := by
  have below : hops.toNat < limit.toNat := left
  have top : limit.toNat < 256 := limit.toNat_lt
  constructor
  · rintro rfl
    have full : (255 : UInt8).toNat = 255 := rfl
    omega
  · rw [UInt8.toNat_add]
    exact Nat.mod_eq_of_lt (by
      have one : (1 : UInt8).toNat = 1 := rfl
      omega)

theorem hopping_next (hopping : Hopping crates spec st) {reply : HttpReply} {loc : String}
    (redirect : isRedirect reply.status = true) (left : st.hops < spec.maxRedirects)
    (found : headerValue "location" reply.headers = some loc) :
    checkedIncr st.hops = .ok (st.hops + 1) ∧
      Hopping crates spec
        { st with
          requests := st.requests ++ [st.request crates spec]
          replies := st.replies ++ [reply]
          url := resolveLocation crates st.url loc
          method := (applyRedirectMethod reply.status st.method st.body).1
          body := (applyRedirectMethod reply.status st.method st.body).2
          hops := st.hops + 1
          chain := st.chain ++ [⟨reply.status, loc⟩] } := by
  have below : st.hops.toNat < spec.maxRedirects.toNat := left
  obtain ⟨room, count⟩ := hops_succ left
  refine ⟨if_neg room, ?_⟩
  constructor
  · rw [count]
    exact below
  · rw [List.length_append, hopping.asked, count, List.length_singleton]
  · rw [List.length_append, hopping.answered, count, List.length_singleton]
  · exact List.rel_append hopping.chain (.cons ⟨rfl, redirect, found⟩ .nil)
  · rw [carried_append, ← hopping.carried]
  · refine issued_reply (issued_next hopping) ?_ reply
    rw [List.length_append, List.length_singleton, hopping.asked, hopping.answered]

/-- A run that ends with a reply. -/
theorem redirected_respond (hopping : Hopping crates spec st) (reply : HttpReply) :
    Redirected crates spec
      (HopState.respond
        { st with
          requests := st.requests ++ [st.request crates spec]
          replies := st.replies ++ [reply] } reply) := by
  have length : (st.requests ++ [st.request crates spec]).length = st.hops.toNat + 1 := by
    rw [List.length_append, hopping.asked, List.length_singleton]
  constructor
  · exact length.le.trans (Nat.succ_le_succ hopping.bounded)
  · refine issued_reply (issued_next hopping) ?_ reply
    rw [length, hopping.answered]
  · intro resp done
    cases done
    refine ⟨st.replies, reply, rfl, hopping.chain, length.trans ?_⟩
    rw [hopping.chain.length_eq, hopping.answered]

theorem redirected_error (hopping : Hopping crates spec st) {requests : List HttpRequest}
    (sent : requests = st.requests ∨ requests = st.requests ++ [st.request crates spec])
    (error : SendError) :
    Redirected crates spec (HopState.finish { st with requests := requests } (.error error)) := by
  have asked := hopping.asked
  have bounded := hopping.bounded
  constructor
  · rcases sent with rfl | rfl
    · exact Nat.le_trans (Nat.le_of_eq asked) (Nat.le_succ_of_le bounded)
    · show (st.requests ++ [st.request crates spec]).length ≤ _
      rw [List.length_append, List.length_singleton]
      omega
  · rcases sent with rfl | rfl
    · exact hopping.issued
    · exact issued_next hopping
  · rintro resp ⟨⟩

end

/-- A rule for the loop: an invariant of its head that every way out turns into the
postcondition. -/
theorem redirectLoop_rule {crates : HttpCrates} {server : Server} {spec : HttpRequestSpec}
    {I : HopState → Prop} {P : Sent → Prop}
    (url : ∀ st, I st → crates.uri st.url = none → P (st.finish (.error .url)))
    (exchange : ∀ st, I st → P (HopState.finish
      { st with requests := st.requests ++ [st.request crates spec] } (.error .exchange)))
    (respond : ∀ st reply, I st → P (HopState.respond
      { st with
        requests := st.requests ++ [st.request crates spec]
        replies := st.replies ++ [reply] } reply))
    (next : ∀ st reply loc hops, I st → headerValue "location" reply.headers = some loc →
      I { st with
          requests := st.requests ++ [st.request crates spec]
          replies := st.replies ++ [reply]
          url := resolveLocation crates st.url loc
          method := (applyRedirectMethod reply.status st.method st.body).1
          body := (applyRedirectMethod reply.status st.method st.body).2
          hops := hops
          chain := st.chain ++ [⟨reply.status, loc⟩] })
    (fuel : Nat) (st : HopState) (base : I st) {sent : Sent}
    (ran : redirectLoop crates server spec fuel st = .ok sent) : P sent := by
  induction fuel generalizing st with
  | zero => cases ran
  | succ fuel ih =>
    unfold redirectLoop at ran
    split at ran
    · next absent =>
      cases ran
      exact url st base absent
    · dsimp only at ran
      split at ran
      · cases ran
        exact exchange st base
      · next reply _ =>
        split at ran
        · split at ran
          · cases ran
            exact respond st reply base
          · next loc found =>
            cases count : checkedIncr st.hops with
            | error fault => rw [count] at ran; cases ran
            | ok hops =>
              rw [count] at ran
              exact ih _ (next st reply loc hops base found) ran
        · cases ran
          exact respond st reply base

/-- The URL behind the replies that were followed. -/
def hopUrl (crates : HttpCrates) (url : String) : List HttpReply → String
  | [] => url
  | reply :: rest =>
    hopUrl crates (resolveLocation crates url ((headerValue "location" reply.headers).getD "")) rest

theorem hopUrl_append (crates : HttpCrates) (url : String) (replies : List HttpReply)
    (reply : HttpReply) : hopUrl crates url (replies ++ [reply]) =
      resolveLocation crates (hopUrl crates url replies)
        ((headerValue "location" reply.headers).getD "") := by
  induction replies generalizing url with
  | nil => rfl
  | cons first rest ih => exact ih _

/-- Every request carries the headers of the first, to the URL the replies before it led to. -/
def SameHeaders (crates : HttpCrates) (spec : HttpRequestSpec) (requests : List HttpRequest)
    (replies : List HttpReply) : Prop :=
  ∀ (i : Nat) (req : HttpRequest), requests[i]? = some req →
    req.headers = headerMap crates spec.headers ∧ req.url = hopUrl crates spec.url (replies.take i)

structure Walking (crates : HttpCrates) (spec : HttpRequestSpec) (st : HopState) : Prop where
  level : st.replies.length = st.requests.length
  here : st.url = hopUrl crates spec.url st.replies
  same : SameHeaders crates spec st.requests st.replies

theorem walking_asked {crates : HttpCrates} {spec : HttpRequestSpec} {st : HopState}
    (walking : Walking crates spec st) (more : List HttpReply) :
    SameHeaders crates spec (st.requests ++ [st.request crates spec]) (st.replies ++ more) := by
  intro i req found
  have level := walking.level
  rw [List.getElem?_append] at found
  split at found
  · next before =>
    rw [List.take_append_of_le_length (by omega)]
    exact walking.same i req found
  · next past =>
    have inside := (List.getElem?_eq_some_iff.mp found).1
    rw [List.length_singleton] at inside
    have position : i = st.replies.length := by omega
    rw [List.mem_singleton.mp (List.mem_of_getElem? found), position, List.take_left]
    exact ⟨rfl, walking.here⟩

/-- The loop changes the URL and never the headers. -/
theorem redirectLoop_sameHeaders {crates : HttpCrates} {server : Server} {spec : HttpRequestSpec}
    {fuel : Nat} {sent : Sent}
    (ran : redirectLoop crates server spec fuel
      { url := spec.url, method := spec.method, body := spec.body } = .ok sent) :
    SameHeaders crates spec sent.requests sent.replies := by
  refine redirectLoop_rule (I := Walking crates spec)
    (P := fun sent => SameHeaders crates spec sent.requests sent.replies) ?_ ?_ ?_ ?_ fuel _ ?_ ran
  · exact fun st walking _ => walking.same
  · intro st walking
    have asked := walking_asked walking []
    rwa [List.append_nil] at asked
  · exact fun st reply walking => walking_asked walking [reply]
  · intro st reply loc hops walking found
    constructor
    · show (st.replies ++ [reply]).length = (st.requests ++ [st.request crates spec]).length
      rw [List.length_append, List.length_append, walking.level]
      rfl
    · show resolveLocation crates st.url loc = hopUrl crates spec.url (st.replies ++ [reply])
      rw [hopUrl_append, found, walking.here]
      rfl
    · exact walking_asked walking [reply]
  · exact ⟨rfl, rfl, fun i req found => by cases found⟩

theorem redirectLoop_redirected (crates : HttpCrates) (server : Server) (spec : HttpRequestSpec)
    (fuel : Nat) (st : HopState) (hopping : Hopping crates spec st)
    (enough : spec.maxRedirects.toNat < st.hops.toNat + fuel) :
    ∃ sent, redirectLoop crates server spec fuel st = .ok sent ∧ Redirected crates spec sent := by
  induction fuel generalizing st with
  | zero => exact absurd hopping.bounded (Nat.not_le.mpr enough)
  | succ fuel ih =>
    unfold redirectLoop
    split
    · exact ⟨_, rfl, redirected_error hopping (.inl rfl) .url⟩
    · dsimp only
      split
      · exact ⟨_, rfl, redirected_error hopping (.inr rfl) .exchange⟩
      · next reply _ =>
        split
        · next follow =>
          split
          · exact ⟨_, rfl, redirected_respond hopping reply⟩
          · next loc found =>
            obtain ⟨incr, next⟩ := hopping_next hopping follow.2.1 follow.2.2 found
            rw [incr, ok_bind]
            refine ih _ next ?_
            show _ < (st.hops + 1).toNat + fuel
            rw [(hops_succ follow.2.2).2]
            omega
        · exact ⟨_, rfl, redirected_respond hopping reply⟩

/-- A request behind a 307 or 308 is the one before it again. -/
theorem Redirected.kept {crates : HttpCrates} {spec : HttpRequestSpec} {sent : Sent}
    (redirected : Redirected crates spec sent) {i : Nat} {before after : HttpRequest}
    {reply : HttpReply} (first : sent.requests[i]? = some before)
    (second : sent.requests[i + 1]? = some after) (between : sent.replies[i]? = some reply)
    (status : reply.status = 307 ∨ reply.status = 308) :
    after.method = before.method ∧ after.body = before.body := by
  have keeps : carried spec (sent.replies.take (i + 1)) = carried spec (sent.replies.take i) := by
    rw [List.take_add_one, between, Option.toList_some, carried_append, applyRedirectMethod, if_neg]
    rcases status with status | status <;> rw [status] <;> decide
  obtain ⟨method, body⟩ := redirected.issued i before first
  obtain ⟨method', body'⟩ := redirected.issued (i + 1) after second
  rw [keeps] at method' body'
  exact ⟨method'.trans method.symm, body'.trans body.symm⟩

/-- A form takes the body; it leaves the method and the limit as they were. -/
theorem ready_keeps {crates : HttpCrates} {spec ready : HttpRequestSpec}
    (built : withFormBody crates (applyAuth crates spec) = some ready) :
    ready.method = spec.method ∧ ready.maxRedirects = spec.maxRedirects := by
  have auth : (applyAuth crates spec).method = spec.method ∧
      (applyAuth crates spec).maxRedirects = spec.maxRedirects := by
    unfold applyAuth
    split
    · exact ⟨rfl, rfl⟩
    · dsimp only
      split <;> exact ⟨rfl, rfl⟩
  unfold withFormBody at built
  split at built
  · obtain ⟨_, _, rfl⟩ := Option.map_eq_some_iff.mp built
    exact auth
  · cases built
    exact auth

/-- Against every server the loop comes to an end within the limit, the chain has an entry
for each followed reply, and method and body are those of the request until a 301, 302 or
303 is followed. -/
theorem redirects_bounded (crates : HttpCrates) (server : Server) (spec : HttpRequestSpec) :
    ∃ sent, sendRequest crates server spec = .ok sent ∧
      match withFormBody crates (applyAuth crates spec) with
      | none => sent.requests = []
      | some ready => ready.method = spec.method ∧ ready.maxRedirects = spec.maxRedirects ∧
          Redirected crates ready sent ∧
          ∀ (i : Nat) (before after : HttpRequest) (reply : HttpReply),
            sent.requests[i]? = some before → sent.requests[i + 1]? = some after →
              sent.replies[i]? = some reply → (reply.status = 307 ∨ reply.status = 308) →
                after.method = before.method ∧ after.body = before.body := by
  unfold sendRequest
  cases built : withFormBody crates (applyAuth crates spec) with
  | none => exact ⟨_, rfl, rfl⟩
  | some ready =>
    have start : Hopping crates ready
        { url := ready.url, method := ready.method, body := ready.body } :=
      { bounded := Nat.zero_le _
        asked := rfl
        answered := rfl
        chain := .nil
        carried := rfl
        issued := fun i req found => by cases found }
    have top : ready.maxRedirects.toNat < 256 := ready.maxRedirects.toNat_lt
    obtain ⟨sent, done, redirected⟩ := redirectLoop_redirected crates server ready 257 _ start
      (Nat.lt_of_lt_of_le top (Nat.le_add_left 256 1))
    obtain ⟨method, limit⟩ := ready_keeps built
    exact ⟨sent, done, method, limit, redirected, fun i before after reply => redirected.kept⟩

end BitBeak.Http
