import BitBeak.Http.Cookies
import Mathlib.Data.Fintype.EquivFin

/-! The cookie jar through a sequence of responses. For every name and domain it holds what
the last header that set them left there; and what one host may do to the cookies of
another. -/
namespace BitBeak

/-- A response as the jar sees it, with the time at which it is stored. -/
structure Received where
  url : String
  headers : List (String × String)
  now : Nat

namespace Received

def host (r : Received) : String := (urlHost r.url).getD ""

def cookies (r : Received) : List Cookie := CookieJar.setCookies r.url r.headers r.now

/-- The host is neither the cookie's domain nor below it. -/
def foreign (r : Received) (c : Cookie) : Bool := !domainMatches c.domain r.host

end Received

def Cookie.key (c : Cookie) : String × String := (c.name, c.domain)

theorem Cookie.liveAt_mono {c : Cookie} {early late : Nat} (ordered : early ≤ late)
    (live : c.liveAt late = true) : c.liveAt early = true := by
  unfold Cookie.liveAt at live ⊢
  rw [Option.all_eq_true] at live ⊢
  intro t expires
  exact decide_eq_true (Nat.lt_of_le_of_lt ordered (of_decide_eq_true (live t expires)))

/-- The last cookie with the key. -/
def lastWith (key : String × String) (cookies : List Cookie) : Option Cookie :=
  (cookies.filter fun c => c.key = key).getLast?

theorem lastWith_append (key : String × String) (xs ys : List Cookie) :
    lastWith key (xs ++ ys) = (lastWith key ys).or (lastWith key xs) := by
  simp only [lastWith, List.filter_append, List.getLast?_append]

theorem lastWith_mem {key : String × String} {cookies : List Cookie} {c : Cookie}
    (last : lastWith key cookies = some c) : c ∈ cookies ∧ c.key = key := by
  have member := List.mem_of_getLast? last
  simpa only [List.mem_filter, decide_eq_true_eq] using member

theorem lastWith_some {cookies : List Cookie} {c : Cookie} (member : c ∈ cookies) :
    ∃ last, lastWith c.key cookies = some last := by
  have here : c ∈ cookies.filter fun x => x.key = c.key :=
    List.mem_filter.mpr ⟨member, decide_eq_true rfl⟩
  exact ⟨_, List.getLast?_eq_some_getLast (List.ne_nil_of_mem here)⟩

namespace CookieJar

theorem sameKey_iff {c x : Cookie} : sameKey c x = true ↔ x.key = c.key := by
  simp only [sameKey, Cookie.key, Bool.and_eq_true, beq_iff_eq, Prod.mk.injEq]

theorem mem_put {now : Nat} {cookies : List Cookie} {c x : Cookie} :
    x ∈ put now cookies c ↔
      if x.key = c.key then x = c ∧ c.liveAt now = true else x ∈ cookies := by
  have rest : x ∈ cookies.filter (fun y => !sameKey c y) ↔ x ∈ cookies ∧ x.key ≠ c.key := by
    rw [List.mem_filter, Bool.not_eq_true', Bool.eq_false_iff, Ne, sameKey_iff]
  unfold put
  dsimp only
  split
  · next live =>
    rw [List.mem_append, List.mem_singleton, rest]
    split
    · next same =>
      constructor
      · rintro (⟨_, other⟩ | rfl)
        · exact absurd same other
        · exact ⟨rfl, live⟩
      · exact fun found => .inr found.1
    · next other =>
      constructor
      · rintro (⟨member, _⟩ | rfl)
        · exact member
        · exact absurd rfl other
      · exact fun member => .inl ⟨member, other⟩
  · next dead =>
    rw [rest]
    split
    · next same =>
      constructor
      · exact fun found => absurd same found.2
      · exact fun found => absurd found.2 dead
    · next other => exact ⟨And.left, fun member => ⟨member, other⟩⟩

/-- After all the headers of a response: what the last one with the key left there. -/
theorem mem_foldl_put {now : Nat} (cookies : List Cookie) (cs : List Cookie) (x : Cookie) :
    x ∈ cs.foldl (put now) cookies ↔
      match lastWith x.key cs with
      | some c => x = c ∧ c.liveAt now = true
      | none => x ∈ cookies := by
  induction cs using List.reverseRecOn with
  | nil => rfl
  | append_singleton cs c ih =>
    rw [List.foldl_append, List.foldl_cons, List.foldl_nil, mem_put, lastWith_append]
    by_cases same : x.key = c.key
    · have here : lastWith x.key [c] = some c := by
        simp only [lastWith, same, decide_true, List.filter_cons_of_pos, List.filter_nil,
          List.getLast?_singleton]
      rw [if_pos same, here]
      rfl
    · have none : lastWith x.key [c] = none := by
        simp only [lastWith, Ne.symm same, decide_false, List.filter_cons_of_neg, Bool.false_eq_true,
          not_false_eq_true, List.filter_nil, List.getLast?_nil]
      rw [if_neg same, none, Option.none_or, ih]

theorem nodup_put {now : Nat} {cookies : List Cookie} (nodup : (cookies.map Cookie.key).Nodup)
    (c : Cookie) : ((put now cookies c).map Cookie.key).Nodup := by
  have rest : ((cookies.filter fun x => !sameKey c x).map Cookie.key).Nodup :=
    nodup.sublist (List.filter_sublist.map _)
  unfold put
  dsimp only
  split
  · rw [List.map_append, List.map_singleton, List.nodup_append]
    refine ⟨rest, List.nodup_singleton _, ?_⟩
    intro key member other single
    obtain ⟨x, found, rfl⟩ := List.mem_map.mp member
    have different := (List.mem_filter.mp found).2
    rw [Bool.not_eq_true', Bool.eq_false_iff, Ne, sameKey_iff] at different
    rw [List.mem_singleton.mp single]
    exact different
  · exact rest

def store (jar : CookieJar) (r : Received) : CookieJar :=
  jar.storeFromResponse r.url r.headers r.now

def storeAll (jar : CookieJar) (rs : List Received) : CookieJar := rs.foldl store jar

variable {jar : CookieJar} {r : Received}

theorem store_disabled (off : jar.enabled = false) : jar.store r = jar := by
  rw [store, storeFromResponse, off]
  rfl

theorem store_enabled (on : jar.enabled = true) : (jar.store r).enabled = true ∧
    (jar.store r).cookies = (r.cookies.foldl (put r.now) jar.cookies).filter (·.liveAt r.now) := by
  rw [store, storeFromResponse, on]
  exact ⟨rfl, rfl⟩

theorem mem_store (on : jar.enabled = true) (x : Cookie) :
    x ∈ (jar.store r).cookies ↔ x.liveAt r.now = true ∧
      match lastWith x.key r.cookies with
      | some c => x = c
      | none => x ∈ jar.cookies := by
  rw [(store_enabled on).2, List.mem_filter, mem_foldl_put]
  cases lastWith x.key r.cookies with
  | none => exact and_comm
  | some c =>
    constructor
    · exact fun ⟨⟨same, _⟩, live⟩ => ⟨live, same⟩
    · rintro ⟨live, rfl⟩
      exact ⟨⟨rfl, live⟩, live⟩

theorem nodup_store (on : jar.enabled = true) (nodup : (jar.cookies.map Cookie.key).Nodup) :
    ((jar.store r).cookies.map Cookie.key).Nodup := by
  have folded : ((r.cookies.foldl (put r.now) jar.cookies).map Cookie.key).Nodup := by
    generalize r.cookies = cs
    induction cs using List.reverseRecOn with
    | nil => exact nodup
    | append_singleton cs c ih =>
      rw [List.foldl_append]
      exact nodup_put ih c
  rw [(store_enabled on).2]
  exact folded.sublist (List.filter_sublist.map _)

def empty : CookieJar := { enabled := true, cookies := [] }

/-- The time of the latest store. -/
def latest (rs : List Received) : Nat := (rs.getLast?.map Received.now).getD 0

/-- At most one cookie for a key, the one that was set last, for as long as it lives. -/
structure TimedMap (rs : List Received) (jar : CookieJar) : Prop where
  enabled : jar.enabled = true
  single : (jar.cookies.map Cookie.key).Nodup
  holds : ∀ c, c ∈ jar.cookies ↔
    lastWith c.key (rs.flatMap Received.cookies) = some c ∧ c.liveAt (latest rs) = true

theorem timedMap_store {rs : List Received} (map : TimedMap rs jar)
    (ordered : ∀ e ∈ rs, e.now ≤ r.now) : TimedMap (rs ++ [r]) (jar.store r) := by
  have now : latest (rs ++ [r]) = r.now := by
    simp only [latest, List.getLast?_append, List.getLast?_singleton, Option.some_or,
      Option.map_some, Option.getD_some]
  constructor
  · exact (store_enabled map.enabled).1
  · exact nodup_store map.enabled map.single
  · intro c
    rw [mem_store map.enabled, now, List.flatMap_append, List.flatMap_singleton, lastWith_append]
    cases lastWith c.key r.cookies with
    | some d =>
      rw [Option.some_or, Option.some.injEq]
      exact ⟨fun ⟨live, same⟩ => ⟨same.symm, live⟩, fun ⟨same, live⟩ => ⟨live, same.symm⟩⟩
    | none =>
      rw [Option.none_or]
      dsimp only
      rw [map.holds]
      constructor
      · exact fun ⟨live, last, _⟩ => ⟨last, live⟩
      · rintro ⟨last, live⟩
        refine ⟨live, last, Cookie.liveAt_mono ?_ live⟩
        unfold latest
        cases found : rs.getLast? with
        | none => exact Nat.zero_le _
        | some e => exact ordered e (List.mem_of_getLast? found)

theorem timedMap_storeAll {rs : List Received} (ordered : rs.Pairwise (·.now ≤ ·.now)) :
    TimedMap rs (empty.storeAll rs) := by
  induction rs using List.reverseRecOn with
  | nil =>
    constructor
    · rfl
    · exact List.nodup_nil
    · intro c
      exact ⟨fun member => absurd member List.not_mem_nil, fun none => by cases none.1⟩
  | append_singleton rs r ih =>
    rw [List.pairwise_append] at ordered
    rw [storeAll, List.foldl_append]
    exact timedMap_store (ih ordered.1)
      (fun e member => ordered.2.2 e member r (List.mem_singleton_self r))

/-- The jar is a last-writer-wins map with expiry; a key that a response does not mention
keeps what lives of it, and a jar that is off keeps everything. -/
theorem jar_is_timed_map {rs : List Received} (ordered : rs.Pairwise (·.now ≤ ·.now)) :
    TimedMap rs (empty.storeAll rs) ∧
      (∀ (jar : CookieJar) (r : Received) (x : Cookie), jar.enabled = true →
        (∀ c ∈ r.cookies, c.key ≠ x.key) →
          (x ∈ (jar.store r).cookies ↔ x ∈ jar.cookies ∧ x.liveAt r.now = true)) ∧
      ∀ (jar : CookieJar) (rs : List Received), jar.enabled = false → jar.storeAll rs = jar := by
  refine ⟨timedMap_storeAll ordered, ?_, ?_⟩
  · intro jar r x on silent
    have none : lastWith x.key r.cookies = none := by
      cases found : lastWith x.key r.cookies with
      | none => rfl
      | some c =>
        obtain ⟨member, same⟩ := lastWith_mem found
        exact absurd same (silent c member)
    rw [mem_store on, none]
    exact and_comm
  · intro jar rs off
    induction rs with
    | nil => rfl
    | cons r rs ih =>
      rw [storeAll, List.foldl_cons, store_disabled off]
      exact ih

/-- A session cookie is set and then deleted with `Max-Age=0`. -/
theorem max_age_zero_deletes : TimedMap
    [⟨"https://example.com/", [("Set-Cookie", "sid=abc")], 5⟩,
      ⟨"https://example.com/", [("Set-Cookie", "sid=x; Max-Age=0")], 7⟩]
    (empty.storeAll
      [⟨"https://example.com/", [("Set-Cookie", "sid=abc")], 5⟩,
        ⟨"https://example.com/", [("Set-Cookie", "sid=x; Max-Age=0")], 7⟩]) :=
  (jar_is_timed_map (by decide)).1

end CookieJar

/- What a host does to the cookies of others. -/

namespace Received

variable {r : Received}

/-- Every cookie the response sets has a domain that its host matches. -/
def OwnDomains (r : Received) : Prop := ∀ c ∈ r.cookies, domainMatches c.domain r.host = true

/-- A store neither creates nor replaces nor deletes a cookie of a domain its host does not
match; cookies whose time is up may go. -/
structure KeepsForeign (r : Received) (before after : CookieJar) : Prop where
  live : after.cookies.filter (fun c => r.foreign c && c.liveAt r.now) =
    before.cookies.filter (fun c => r.foreign c && c.liveAt r.now)
  old : ∀ c ∈ after.cookies, r.foreign c = true → c ∈ before.cookies

theorem foreign_iff {c : Cookie} : r.foreign c = true ↔ ¬ domainMatches c.domain r.host = true := by
  rw [foreign, Bool.not_eq_true', Bool.eq_false_iff]

/-- A foreign cookie has another domain than the one put. -/
theorem other_key {c x : Cookie} (own : domainMatches c.domain r.host = true)
    (foreign : r.foreign x = true) : CookieJar.sameKey c x = false := by
  rw [Bool.eq_false_iff, Ne, CookieJar.sameKey_iff]
  intro same
  have domain : x.domain = c.domain := congrArg Prod.snd same
  rw [foreign_iff, domain] at foreign
  exact foreign own

theorem put_foreign {c : Cookie} (own : domainMatches c.domain r.host = true)
    (cookies : List Cookie) :
    (CookieJar.put r.now cookies c).filter r.foreign = cookies.filter r.foreign := by
  have rest : (cookies.filter fun x => !CookieJar.sameKey c x).filter r.foreign =
      cookies.filter r.foreign := by
    rw [List.filter_filter]
    apply List.filter_congr
    intro x _
    cases foreign : r.foreign x with
    | false => rfl
    | true => rw [other_key own foreign]; rfl
  have native : r.foreign c = false := by rw [foreign, own]; rfl
  unfold CookieJar.put
  dsimp only
  split
  · rw [List.filter_append, rest, List.filter_cons_of_neg (by rw [native]; decide),
      List.filter_nil, List.append_nil]
  · exact rest

theorem foldl_put_foreign (own : r.OwnDomains) (cookies : List Cookie) :
    (r.cookies.foldl (CookieJar.put r.now) cookies).filter r.foreign = cookies.filter r.foreign := by
  unfold OwnDomains at own
  generalize r.cookies = cs at own
  induction cs generalizing cookies with
  | nil => rfl
  | cons c cs ih =>
    rw [List.foldl_cons, ih _ (fun x member => own x (List.mem_cons_of_mem c member)),
      put_foreign (own c (List.mem_cons_self ..))]

theorem store_keepsForeign (own : r.OwnDomains) (jar : CookieJar) :
    r.KeepsForeign jar (jar.store r) := by
  cases on : jar.enabled with
  | false =>
    rw [CookieJar.store_disabled on]
    exact ⟨rfl, fun _ member _ => member⟩
  | true =>
    have stored := (CookieJar.store_enabled (r := r) on).2
    have kept := foldl_put_foreign own jar.cookies
    constructor
    · have both : ∀ cookies : List Cookie,
          cookies.filter (fun c => r.foreign c && c.liveAt r.now) =
            (cookies.filter r.foreign).filter (·.liveAt r.now) := by
        intro cookies
        rw [List.filter_filter]
        exact List.filter_congr (fun c _ => Bool.and_comm _ _)
      rw [stored, both, both, ← kept, List.filter_filter, List.filter_filter, List.filter_filter]
      apply List.filter_congr
      intro c _
      cases r.foreign c <;> cases c.liveAt r.now <;> rfl
    · intro c member foreign
      rw [stored] at member
      have there := (List.mem_filter.mp member).1
      have here : c ∈ jar.cookies.filter r.foreign := by
        rw [← kept]
        exact List.mem_filter.mpr ⟨there, foreign⟩
      exact (List.mem_filter.mp here).1

/-- When every response sets cookies of its own domains only, no store of the sequence
touches a cookie foreign to its host. -/
theorem own_domains_keep_foreign {rs : List Received} (own : ∀ r ∈ rs, r.OwnDomains)
    (jar : CookieJar) (pre : List Received) (r : Received) (post : List Received)
    (here : rs = pre ++ r :: post) :
    r.KeepsForeign (jar.storeAll pre) (jar.storeAll (pre ++ [r])) := by
  have member : r ∈ rs := by
    rw [here]
    exact List.mem_append_right _ (List.mem_cons_self ..)
  rw [CookieJar.storeAll, CookieJar.storeAll, List.foldl_append]
  exact store_keepsForeign (own r member) _

/-- A host sets a cookie for the domain above it. -/
def parentDomain : Received :=
  ⟨"https://api.example.com/v1", [("Set-Cookie", "sid=abc; Path=/; Domain=example.com")], 5⟩

theorem parent_domain_keeps_foreign :
    parentDomain.KeepsForeign (CookieJar.empty.storeAll []) (CookieJar.empty.storeAll [parentDomain]) :=
  @own_domains_keep_foreign [parentDomain] (by
    intro r member
    cases List.mem_singleton.mp member
    unfold OwnDomains
    decide +kernel) CookieJar.empty [] parentDomain [] rfl

/-- A host sets a cookie for a domain that is not its own. -/
def foreignDomain : Received :=
  ⟨"https://evil.test/", [("Set-Cookie", "sid=x; Domain=bank.test")], 5⟩

theorem foreign_domain_accepted : ¬ ∀ (jar : CookieJar) (rs pre : List Received) (r : Received)
    (post : List Received), rs = pre ++ r :: post →
      r.KeepsForeign (jar.storeAll pre) (jar.storeAll (pre ++ [r])) := by
  intro always
  have kept := always .empty [foreignDomain] [] foreignDomain [] rfl
  have created : ∃ c ∈ (CookieJar.empty.storeAll [foreignDomain]).cookies,
      foreignDomain.foreign c = true := by
    decide +kernel
  obtain ⟨c, member, foreign⟩ := created
  exact List.not_mem_nil (kept.old c member foreign)

/- The condition is exact for a response: one that sets a cookie of a foreign domain deletes
or replaces some cookie of that domain. -/

theorem fresh_text (texts : List String) : ∃ text, text ∉ texts := by
  have injective : Function.Injective fun n => String.ofList (List.replicate n 'a') := by
    intro m n same
    have lists := congrArg String.toList same
    simpa using congrArg List.length lists
  have := Infinite.of_injective _ injective
  obtain ⟨text, outside⟩ := Infinite.exists_notMem_finset texts.toFinset
  exact ⟨text, fun member => outside (List.mem_toFinset.mpr member)⟩

theorem keepsForeign_iff :
    (∀ jar : CookieJar, r.KeepsForeign jar (jar.store r)) ↔ r.OwnDomains := by
  constructor
  · intro keeps c member
    by_contra foreign
    obtain ⟨text, fresh⟩ := fresh_text (r.cookies.map Cookie.value)
    let stored : Cookie := { c with value := text, expiresAt := none }
    have outside : stored ∉ r.cookies := fun inside =>
      fresh (List.mem_map.mpr ⟨stored, inside, rfl⟩)
    have kept := keeps { enabled := true, cookies := [stored] }
    have before : stored ∈ [stored].filter (fun c => r.foreign c && c.liveAt r.now) := by
      refine List.mem_filter.mpr ⟨List.mem_singleton_self _, ?_⟩
      have other : r.foreign stored = true := foreign_iff.mpr foreign
      rw [other]
      rfl
    rw [← kept.live] at before
    have after := ((CookieJar.mem_store rfl stored).mp (List.mem_filter.mp before).1).2
    obtain ⟨last, found⟩ := lastWith_some member
    have same : lastWith stored.key r.cookies = some last := found
    rw [same] at after
    exact outside (after ▸ (lastWith_mem same).1)
  · exact store_keepsForeign

end Received

end BitBeak
