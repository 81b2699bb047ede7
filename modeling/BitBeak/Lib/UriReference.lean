import Mathlib.Data.List.DropRight
import Mathlib.Data.List.Infix

/-! References to resources: their parts, and their resolution against a base by RFC 3986. -/
namespace UriReference

abbrev Text := List Char

structure Reference where
  scheme : Option Text
  authority : Option Text
  path : Text
  query : Option Text
  fragment : Option Text

/- The parts of a text. -/

/-- What stands in front of the first mark, and what stands behind it. -/
def cutAt (mark : Char) (t : Text) : Text × Option Text :=
  match t.dropWhile (· ≠ mark) with
  | [] => (t, none)
  | _ :: behind => (t.takeWhile (· ≠ mark), some behind)

def cutScheme (t : Text) : Option Text × Text :=
  match t.dropWhile (· ∉ [':', '/']) with
  | ':' :: behind =>
    if t.takeWhile (· ∉ [':', '/']) = [] then (none, t)
    else (some (t.takeWhile (· ∉ [':', '/'])), behind)
  | _ => (none, t)

def cutAuthority (t : Text) : Option Text × Text :=
  match t with
  | '/' :: '/' :: rest => (some (rest.takeWhile (· ≠ '/')), rest.dropWhile (· ≠ '/'))
  | _ => (none, t)

def parse (t : Text) : Reference :=
  let f := cutAt '#' t
  let q := cutAt '?' f.1
  let s := cutScheme q.1
  let a := cutAuthority s.2
  { scheme := s.1, authority := a.1, path := a.2, query := q.2, fragment := f.2 }

/-- The text of the parts. -/
def recompose (r : Reference) : Text :=
  (r.scheme.elim [] (· ++ [':'])) ++ ((r.authority.elim [] fun a => '/' :: '/' :: a) ++
    (r.path ++ (r.query.elim [] ('?' :: ·) ++ r.fragment.elim [] ('#' :: ·))))

/- Resolution. -/

/-- Without the last segment and the slash in front of it. -/
def dropLastSegment (t : Text) : Text := (t.rdropWhile (· ≠ '/')).dropLast

/-- The first segment with the slash in front of it, if there is one. -/
def firstSegment : Text → Text
  | [] => []
  | c :: rest => c :: rest.takeWhile (· ≠ '/')

theorem firstSegment_pos {t : Text} (some : t ≠ []) : 0 < (firstSegment t).length := by
  obtain ⟨c, rest, rfl⟩ := List.exists_cons_of_ne_nil some
  exact Nat.succ_pos _

/-- `remove_dot_segments`, with the segments that are done in `out`. -/
def removeDots (out input : Text) : Text :=
  if input = [] then out
  else if ['.', '.', '/'] <+: input then removeDots out (input.drop 3)
  else if ['.', '/'] <+: input then removeDots out (input.drop 2)
  else if ['/', '.', '/'] <+: input then removeDots out (input.drop 2)
  else if input = ['/', '.'] then removeDots out ['/']
  else if ['/', '.', '.', '/'] <+: input then removeDots (dropLastSegment out) (input.drop 3)
  else if input = ['/', '.', '.'] then removeDots (dropLastSegment out) ['/']
  else if input = ['.'] ∨ input = ['.', '.'] then out
  else removeDots (out ++ firstSegment input) (input.drop (firstSegment input).length)
termination_by input.length
decreasing_by
  all_goals have some : input ≠ [] := by assumption
  all_goals have positive := List.length_pos_iff.mpr some
  · simp only [List.length_drop]; omega
  · simp only [List.length_drop]; omega
  · simp only [List.length_drop]; omega
  · simp [*]
  · simp only [List.length_drop]; omega
  · simp [*]
  · have first := firstSegment_pos some
    simp only [List.length_drop]; omega

/-- The path of the base up to its last slash. -/
def baseDirectory (base : Reference) : Text :=
  if base.path = [] ∧ base.authority ≠ none then ['/'] else base.path.rdropWhile (· ≠ '/')

def resolve (base r : Reference) : Reference :=
  if r.scheme ≠ none then { r with path := removeDots [] r.path }
  else if r.authority ≠ none then { r with scheme := base.scheme, path := removeDots [] r.path }
  else if r.path = [] then
    { r with
      scheme := base.scheme
      authority := base.authority
      path := base.path
      query := r.query.or base.query }
  else if r.path.head? = some '/' then
    { r with scheme := base.scheme, authority := base.authority, path := removeDots [] r.path }
  else
    { r with
      scheme := base.scheme
      authority := base.authority
      path := removeDots [] (baseDirectory base ++ r.path) }

/- The parts are those of the text. -/

theorem others_of_outside {c : Char} {t : Text} (outside : c ∉ t) :
    ∀ d ∈ t, decide (d ≠ c) = true :=
  fun _ member => decide_eq_true fun same => outside (same ▸ member)

theorem cutAt_text (mark : Char) (t : Text) :
    (cutAt mark t).1 ++ (cutAt mark t).2.elim [] (mark :: ·) = t := by
  have whole := List.takeWhile_append_dropWhile (p := (· ≠ mark)) (l := t)
  have first := List.head?_dropWhile_not (· ≠ mark) t
  rw [cutAt]
  split
  · simp
  · next c behind found =>
    rw [found] at first whole
    obtain rfl : c = mark := by simpa using first
    exact whole

theorem cutScheme_text (t : Text) : (cutScheme t).1.elim [] (· ++ [':']) ++ (cutScheme t).2 = t := by
  have whole := List.takeWhile_append_dropWhile (p := (· ∉ [':', '/'])) (l := t)
  rw [cutScheme]
  split
  · next behind found =>
    split
    · rfl
    · rw [found] at whole
      simpa using whole
  · rfl

theorem cutAuthority_text (t : Text) :
    ((cutAuthority t).1.elim [] fun a => '/' :: '/' :: a) ++ (cutAuthority t).2 = t := by
  unfold cutAuthority
  split
  · simp [List.takeWhile_append_dropWhile]
  · rfl

theorem recompose_parse (t : Text) : recompose (parse t) = t := by
  have fragment := cutAt_text '#' t
  have query := cutAt_text '?' (cutAt '#' t).1
  have scheme := cutScheme_text (cutAt '?' (cutAt '#' t).1).1
  have authority := cutAuthority_text (cutScheme (cutAt '?' (cutAt '#' t).1).1).2
  rw [recompose, parse]
  dsimp only
  have nested : ∀ s a p q f : Text, s ++ (a ++ (p ++ (q ++ f))) = s ++ (a ++ p) ++ q ++ f := by
    simp
  rw [nested, authority, scheme, query, fragment]

theorem cutAt_append {mark : Char} {front : Text} (outside : mark ∉ front) (t : Text) :
    (cutAt mark (front ++ t)).1 = front ++ (cutAt mark t).1 := by
  have others := others_of_outside outside
  rw [cutAt, cutAt, List.dropWhile_append_of_pos others, List.takeWhile_append_of_pos others]
  split <;> rfl

/-- Behind an authority the path is empty or begins with a slash. -/
theorem parse_authority {t : Text} (some : (parse t).authority ≠ none) :
    (parse t).path = [] ∨ ∃ u, (parse t).path = '/' :: u := by
  simp only [parse] at some ⊢
  generalize (cutScheme (cutAt '?' (cutAt '#' t).1).1).2 = t at some ⊢
  unfold cutAuthority at some ⊢
  split at some
  · next rest =>
    have first := List.head?_dropWhile_not (· ≠ '/') rest
    cases shape : rest.dropWhile (· ≠ '/') with
    | nil => exact .inl rfl
    | cons c u =>
      rw [shape] at first
      obtain rfl : c = '/' := by simpa using first
      exact .inr ⟨u, rfl⟩
  · exact absurd rfl some

/-- What begins with a scheme and an authority has both. -/
theorem parse_front {s : Text} (some : s ≠ [])
    (plain : ∀ c ∈ s, c ∉ [':', '/', '?', '#']) (t : Text) :
    (parse (s ++ [':', '/', '/'] ++ t)).scheme = Option.some s ∧
      (parse (s ++ [':', '/', '/'] ++ t)).authority ≠ none := by
  have outside : ∀ c ∈ ['?', '#'], c ∉ s ++ [':', '/', '/'] := by
    intro c mark member
    rcases List.mem_append.mp member with inside | behind
    · have clear := plain c inside
      simp only [List.mem_cons, List.not_mem_nil, or_false, not_or] at mark clear
      rcases mark with rfl | rfl
      · exact clear.2.2.1 rfl
      · exact clear.2.2.2 rfl
    · simp only [List.mem_cons, List.not_mem_nil, or_false] at mark behind
      rcases mark with rfl | rfl <;> simp at behind
  have others : ∀ c ∈ s, decide (c ∉ [':', '/']) = true := by
    intro c member
    have clear := plain c member
    simp only [List.mem_cons, List.not_mem_nil, or_false, not_or] at clear
    simp [clear]
  have cut : ∀ u, cutScheme (s ++ [':', '/', '/'] ++ u) = (Option.some s, '/' :: '/' :: u) := by
    intro u
    rw [cutScheme, List.append_assoc, List.dropWhile_append_of_pos others,
      List.takeWhile_append_of_pos others]
    simp [some]
  simp only [parse]
  rw [cutAt_append (outside '#' (by simp)), cutAt_append (outside '?' (by simp)), cut]
  exact ⟨rfl, Option.some_ne_none _⟩

/- Segments. -/

/-- The path of some segments, with a slash in front of each. -/
def rooted (segments : List Text) : Text := segments.flatMap ('/' :: ·)

def dots (s : Text) : Prop := s = ['.'] ∨ s = ['.', '.']

instance (s : Text) : Decidable (dots s) := inferInstanceAs (Decidable (s = ['.'] ∨ s = ['.', '.']))

/-- No segment of the path is a dot segment. -/
def DotFree (path : Text) : Prop := ∀ s ∈ path.splitOn '/', ¬ dots s

instance (path : Text) : Decidable (DotFree path) :=
  inferInstanceAs (Decidable (∀ s ∈ path.splitOn '/', ¬ dots s))

def Plain (segments : List Text) : Prop := ∀ s ∈ segments, '/' ∉ s

theorem rooted_cons (s : Text) (segments : List Text) :
    rooted (s :: segments) = '/' :: (s ++ rooted segments) := by
  simp [rooted]

theorem rooted_append (front back : List Text) :
    rooted (front ++ back) = rooted front ++ rooted back := List.flatMap_append

theorem rooted_head (segments : List Text) :
    rooted segments = [] ∧ segments = [] ∨ ∃ t, rooted segments = '/' :: t := by
  cases segments with
  | nil => exact .inl ⟨rfl, rfl⟩
  | cons s more => exact .inr ⟨_, rooted_cons s more⟩

theorem rooted_intercalate {segments : List Text} (some : segments ≠ []) :
    rooted segments = '/' :: ['/'].intercalate segments := by
  induction segments with
  | nil => exact absurd rfl some
  | cons s more ih =>
    rw [rooted_cons]
    cases more with
    | nil => simp [rooted]
    | cons s' more => rw [ih (List.cons_ne_nil _ _), List.intercalate_cons_cons]; simp

theorem rooted_splitOn (t : Text) : rooted (t.splitOn '/') = '/' :: t := by
  rw [rooted_intercalate (List.splitOn_ne_nil _ _), List.intercalate_splitOn]

theorem splitOn_rooted {segments : List Text} (plain : Plain segments) (some : segments ≠ [])
    {t : Text} (same : rooted segments = '/' :: t) : t.splitOn '/' = segments := by
  rw [rooted_intercalate some] at same
  rw [← (List.cons.inj same).2, List.splitOn_intercalate _ plain some]

theorem plain_splitOn (t : Text) : Plain (t.splitOn '/') := by
  induction t with
  | nil => simp [Plain]
  | cons c t ih =>
    rw [List.splitOn_cons_eq_if_modifyHead]
    split
    · intro s member
      rcases List.mem_cons.mp member with rfl | member
      · exact List.not_mem_nil
      · exact ih s member
    · next other =>
      obtain ⟨first, more, shape⟩ := List.exists_cons_of_ne_nil (List.splitOn_ne_nil '/' t)
      rw [shape] at ih ⊢
      intro s member
      rcases List.mem_cons.mp member with rfl | member
      · have clear := ih first List.mem_cons_self
        have differ : '/' ≠ c := by
          rintro rfl
          simp at other
        simp [clear, differ]
      · exact ih s (List.mem_cons_of_mem _ member)

/-- A segment in front of others is not the beginning of a longer one. -/
theorem segment_front {d s : Text} (plain : '/' ∉ d) (plain' : '/' ∉ s) {more : List Text}
    (begins : d ++ ['/'] <+: s ++ rooted more) : d = s := by
  induction d generalizing s with
  | nil =>
    cases s with
    | nil => rfl
    | cons c s =>
      obtain ⟨rfl, -⟩ := List.cons_prefix_cons.mp begins
      exact absurd List.mem_cons_self plain'
  | cons c d ih =>
    cases s with
    | nil =>
      rcases rooted_head more with ⟨none, -⟩ | ⟨t, shape⟩
      · simp [none] at begins
      · rw [List.nil_append, shape] at begins
        obtain ⟨rfl, -⟩ := List.cons_prefix_cons.mp begins
        exact absurd List.mem_cons_self plain
    | cons c' s =>
      obtain ⟨rfl, rest⟩ := List.cons_prefix_cons.mp begins
      rw [ih (fun member => plain (List.mem_cons_of_mem _ member))
        (fun member => plain' (List.mem_cons_of_mem _ member)) rest]

theorem segment_whole {d s : Text} (plain : '/' ∉ d) {more : List Text}
    (same : d = s ++ rooted more) : d = s ∧ more = [] := by
  rcases rooted_head more with ⟨none, empty⟩ | ⟨t, shape⟩
  · exact ⟨by rw [same, none, List.append_nil], empty⟩
  · rw [same, shape] at plain
    exact absurd (List.mem_append_right _ List.mem_cons_self) plain

theorem rdropWhile_last (front : Text) {s : Text} (plain : '/' ∉ s) :
    (front ++ '/' :: s).rdropWhile (· ≠ '/') = front ++ ['/'] := by
  have others := others_of_outside fun inside => plain (List.mem_reverse.mp inside)
  rw [List.rdropWhile, List.reverse_append, List.reverse_cons, List.append_assoc,
    List.dropWhile_append_of_pos others]
  simp

theorem rooted_last (front : List Text) (s : Text) :
    rooted (front ++ [s]) = rooted front ++ '/' :: s := by
  simp [rooted]

theorem dropLastSegment_rooted {segments : List Text} (plain : Plain segments) :
    dropLastSegment (rooted segments) = rooted segments.dropLast := by
  rcases List.eq_nil_or_concat' segments with rfl | ⟨front, s, rfl⟩
  · rfl
  · have clear : '/' ∉ s := plain s (List.mem_append_right _ (List.mem_singleton_self s))
    rw [dropLastSegment, rooted_last, rdropWhile_last _ clear, List.dropLast_concat,
      List.dropLast_concat]

/- Dot segments. -/

/-- What a segment with others behind it leaves of those in front. -/
def walk (done : List Text) (s : Text) : List Text :=
  if s = ['.'] then done else if s = ['.', '.'] then done.dropLast else done ++ [s]

/-- What all segments leave; a dot segment at the end leaves the slash in front of it. -/
def walkAll : List Text → List Text → List Text
  | done, [] => done
  | done, [s] => if dots s then walk done s ++ [[]] else done ++ [s]
  | done, s :: more => walkAll (walk done s) more

theorem walk_plain {done : List Text} {s : Text} (plain : Plain done) (plain' : '/' ∉ s) :
    Plain (walk done s) := by
  rw [walk]
  split
  · exact plain
  · split
    · exact fun t member => plain t (List.dropLast_subset done member)
    · intro t member
      rcases List.mem_append.mp member with front | last
      · exact plain t front
      · exact List.mem_singleton.mp last ▸ plain'

theorem removeDots_nil (out : Text) : removeDots out [] = out := by
  rw [removeDots, if_pos rfl]

theorem removeDots_slash (out : Text) : removeDots out ['/'] = out ++ ['/'] := by
  rw [removeDots]
  simp [firstSegment, removeDots_nil]

theorem removeDots_plain (out : Text) {s : Text} (plain : '/' ∉ s) (other : ¬ dots s)
    (more : List Text) :
    removeDots out ('/' :: (s ++ rooted more)) = removeDots (out ++ '/' :: s) (rooted more) := by
  have one : ¬ ['.', '/'] <+: s ++ rooted more := fun begins =>
    other (.inl (segment_front (d := ['.']) (by simp) plain begins).symm)
  have two : ¬ ['.', '.', '/'] <+: s ++ rooted more := fun begins =>
    other (.inr (segment_front (d := ['.', '.']) (by simp) plain begins).symm)
  have one' : ¬ s ++ rooted more = ['.'] := fun same =>
    other (.inl (segment_whole (d := ['.']) (by simp) same.symm).1.symm)
  have two' : ¬ s ++ rooted more = ['.', '.'] := fun same =>
    other (.inr (segment_whole (d := ['.', '.']) (by simp) same.symm).1.symm)
  have first : firstSegment ('/' :: (s ++ rooted more)) = '/' :: s := by
    rw [firstSegment, List.takeWhile_append_of_pos (others_of_outside plain)]
    rcases rooted_head more with ⟨none, -⟩ | ⟨t, shape⟩
    · simp [none]
    · simp [shape]
  rw [removeDots, first]
  simp [List.cons_prefix_cons, one, two, one', two']

/-- Segment by segment, the text is read as the segments are walked. -/
theorem removeDots_rooted {done : List Text} (plain : Plain done) {segments : List Text}
    (plain' : Plain segments) :
    removeDots (rooted done) (rooted segments) = rooted (walkAll done segments) := by
  induction segments generalizing done with
  | nil => exact removeDots_nil _
  | cons s more ih =>
    have clear := plain' s List.mem_cons_self
    have later := ih (walk_plain plain clear) fun t member => plain' t (List.mem_cons_of_mem s member)
    have back := dropLastSegment_rooted plain
    rw [rooted_cons]
    cases more with
    | nil =>
      rw [walkAll]
      split
      · next dot =>
        rw [rooted_last]
        rcases dot with rfl | rfl
        · rw [show rooted [] = [] from rfl, List.append_nil, removeDots]
          simp [removeDots_slash, walk]
        · rw [show rooted [] = [] from rfl, List.append_nil, removeDots]
          simp [removeDots_slash, walk, back]
      · next other =>
        rw [removeDots_plain _ clear other, show rooted [] = [] from rfl, removeDots_nil, rooted_last]
    | cons s' more =>
      rw [walkAll, ← later]
      · by_cases dot : dots s
        · rcases dot with rfl | rfl
          · rw [removeDots]
            simp [walk, rooted_cons]
          · rw [removeDots]
            simp [walk, rooted_cons, back]
        · rw [removeDots_plain _ clear dot, walk, if_neg fun same => dot (.inl same),
            if_neg fun same => dot (.inr same), rooted_last]
      · simp

def Free (segments : List Text) : Prop := ∀ s ∈ segments, ¬ dots s

theorem walk_free {done : List Text} (free : Free done) (s : Text) : Free (walk done s) := by
  rw [walk]
  split
  · exact free
  · next one =>
    split
    · exact fun t member => free t (List.dropLast_subset done member)
    · next two =>
      intro t member
      rcases List.mem_append.mp member with front | last
      · exact free t front
      · rw [List.mem_singleton.mp last]
        exact fun dot => dot.elim one two

/-- No dot segment is left. -/
theorem walkAll_free {done : List Text} (free : Free done) (segments : List Text) :
    Free (walkAll done segments) := by
  induction segments generalizing done with
  | nil => exact free
  | cons s more ih =>
    cases more with
    | nil =>
      rw [walkAll]
      split
      · intro t member
        rcases List.mem_append.mp member with front | last
        · exact walk_free free s t front
        · rw [List.mem_singleton.mp last]
          simp [dots]
      · next other =>
        intro t member
        rcases List.mem_append.mp member with front | last
        · exact free t front
        · rwa [List.mem_singleton.mp last]
    | cons s' more =>
      rw [walkAll]
      · exact ih (walk_free free s)
      · simp

theorem walkAll_of_free (done : List Text) {segments : List Text} (free : Free segments) :
    walkAll done segments = done ++ segments := by
  induction segments generalizing done with
  | nil => simp [walkAll]
  | cons s more ih =>
    have here := free s List.mem_cons_self
    have later := @ih (done ++ [s]) fun t member => free t (List.mem_cons_of_mem s member)
    have walked : walk done s = done ++ [s] := by
      rw [walk, if_neg fun same => here (.inl same), if_neg fun same => here (.inr same)]
    cases more with
    | nil => rw [walkAll, if_neg here]
    | cons s' more =>
      rw [walkAll, walked, later, List.append_assoc]
      · rfl
      · simp

/-- The last segments are walked on what the first ones leave. -/
theorem walkAll_append (done front : List Text) {back : List Text} (some : back ≠ []) :
    walkAll done (front ++ back) = walkAll (front.foldl walk done) back := by
  induction front generalizing done with
  | nil => rfl
  | cons s front ih =>
    have more : front ++ back ≠ [] := List.append_ne_nil_of_right_ne_nil front some
    obtain ⟨s', rest, shape⟩ := List.exists_cons_of_ne_nil more
    rw [List.cons_append, List.foldl_cons, ← ih, shape, walkAll]
    simp

theorem foldl_walk_plain {done segments : List Text} (plain : Plain done) (plain' : Plain segments) :
    Plain (segments.foldl walk done) := by
  induction segments generalizing done with
  | nil => exact plain
  | cons s more ih =>
    exact ih (walk_plain plain (plain' s List.mem_cons_self))
      fun t member => plain' t (List.mem_cons_of_mem s member)

theorem foldl_walk_free {done segments : List Text} (free : Free done) :
    Free (segments.foldl walk done) := by
  induction segments generalizing done with
  | nil => exact free
  | cons s more ih => exact ih (walk_free free s)

theorem walkAll_plain {done segments : List Text} (plain : Plain done) (plain' : Plain segments) :
    Plain (walkAll done segments) := by
  induction segments generalizing done with
  | nil => exact plain
  | cons s more ih =>
    have clear := plain' s List.mem_cons_self
    have ends : ∀ {front : List Text} {t : Text}, Plain front → '/' ∉ t → Plain (front ++ [t]) := by
      intro front t first last u member
      rcases List.mem_append.mp member with inside | here
      · exact first u inside
      · exact List.mem_singleton.mp here ▸ last
    cases more with
    | nil =>
      rw [walkAll]
      split
      · exact ends (walk_plain plain clear) List.not_mem_nil
      · exact ends plain clear
    | cons s' more =>
      rw [walkAll]
      · exact ih (walk_plain plain clear) fun t member => plain' t (List.mem_cons_of_mem s member)
      · simp

theorem rooted_injective {xs ys : List Text} (plain : Plain xs) (plain' : Plain ys)
    (same : rooted xs = rooted ys) : xs = ys := by
  rcases rooted_head xs with ⟨none, rfl⟩ | ⟨t, shape⟩
  · rcases rooted_head ys with ⟨_, rfl⟩ | ⟨t, shape'⟩
    · rfl
    · rw [none, shape'] at same
      cases same
  · have some : ∀ {zs : List Text}, rooted zs = '/' :: t → zs ≠ [] := by
      rintro zs whole rfl
      cases whole
    rw [← splitOn_rooted plain (some shape) shape,
      ← splitOn_rooted plain' (some (same ▸ shape)) (same ▸ shape)]

/-- A path without dot segments is the one that stays as it is. -/
theorem removeDots_eq_self_iff (t : Text) : removeDots [] ('/' :: t) = '/' :: t ↔ DotFree t := by
  have empty : Plain [] := by simp [Plain]
  have plain := plain_splitOn t
  have read := removeDots_rooted empty plain
  rw [rooted_splitOn, show rooted [] = [] from rfl] at read
  rw [read]
  constructor
  · intro same
    rw [← rooted_splitOn t] at same
    have walked := rooted_injective (walkAll_plain (by simp [Plain]) plain) plain same
    rw [DotFree, ← walked]
    exact walkAll_free (by simp [Free]) _
  · intro free
    rw [walkAll_of_free [] free, List.nil_append, rooted_splitOn]

/-- The segments of a path behind a directory are walked on what the directory leaves. -/
theorem removeDots_behind {front : List Text} (plain : Plain front) (t : Text) :
    removeDots [] (rooted front ++ '/' :: t) =
      rooted (walkAll (front.foldl walk []) (t.splitOn '/')) := by
  have empty : Plain [] := by simp [Plain]
  have both : Plain (front ++ t.splitOn '/') := by
    intro s member
    rcases List.mem_append.mp member with inside | behind
    · exact plain s inside
    · exact plain_splitOn t s behind
  have read := removeDots_rooted empty both
  rw [rooted_append, rooted_splitOn, walkAll_append _ _ (List.splitOn_ne_nil _ _)] at read
  exact read

/-- The directory is that of the root exactly if nothing of its segments is left. -/
theorem removeDots_root_iff {front : List Text} (plain : Plain front) :
    removeDots [] (rooted front ++ ['/']) = ['/'] ↔ front.foldl walk [] = [] := by
  have walked : Plain (front.foldl walk []) := foldl_walk_plain (by simp [Plain]) plain
  have single : ([] : Text).splitOn '/' = [[]] := by simp
  rw [removeDots_behind plain, single, walkAll, if_neg (by simp [dots])]
  constructor
  · intro same
    have segments : front.foldl walk [] ++ [[]] = [[]] :=
      rooted_injective (fun s member => by
        rcases List.mem_append.mp member with inside | last
        · exact walked s inside
        · simp [List.mem_singleton.mp last]) (by simp [Plain]) (by simpa [rooted] using same)
    exact List.append_left_eq_self.mp segments
  · intro none
    rw [none]
    simp [rooted]

/-- A path behind a directory stays alone exactly if the directory is that of the root and the path
has no dot segments. -/
theorem removeDots_append_iff {front : List Text} (plain : Plain front) (t : Text) :
    removeDots [] (rooted front ++ '/' :: t) = '/' :: t ↔
      removeDots [] (rooted front ++ ['/']) = ['/'] ∧ DotFree t := by
  have clear := plain_splitOn t
  have walked : Plain (front.foldl walk []) := foldl_walk_plain (by simp [Plain]) plain
  have free : Free (front.foldl walk []) := foldl_walk_free (by simp [Free])
  rw [removeDots_root_iff plain, removeDots_behind plain]
  constructor
  · intro same
    rw [← rooted_splitOn t] at same
    have segments := rooted_injective (walkAll_plain walked clear) clear same
    have dotFree : DotFree t := by
      rw [DotFree, ← segments]
      exact walkAll_free free _
    rw [walkAll_of_free _ dotFree] at segments
    exact ⟨List.append_left_eq_self.mp segments, dotFree⟩
  · rintro ⟨none, dotFree⟩
    rw [none, walkAll_of_free [] dotFree, List.nil_append, rooted_splitOn]

theorem dotFree_slash (t : Text) : DotFree ('/' :: t) ↔ DotFree t := by
  have split : ('/' :: t).splitOn '/' = [] :: t.splitOn '/' := by
    simp [List.splitOn_cons_eq_if_modifyHead]
  simp [DotFree, split, dots]

theorem removeDots_path {path : Text} (shape : path = [] ∨ ∃ t, path = '/' :: t) :
    removeDots [] path = path ↔ DotFree path := by
  rcases shape with rfl | ⟨t, rfl⟩
  · simp [removeDots_nil, DotFree, dots]
  · rw [removeDots_eq_self_iff, dotFree_slash]

/-- The directory of a base is the path of some segments with a slash behind it. -/
theorem baseDirectory_rooted {base : Reference} (some : base.authority ≠ none)
    (path : base.path = [] ∨ ∃ t, base.path = '/' :: t) :
    ∃ front, Plain front ∧ baseDirectory base = rooted front ++ ['/'] := by
  rw [baseDirectory]
  rcases path with empty | ⟨t, shape⟩
  · exact ⟨[], by simp [Plain], by rw [if_pos ⟨empty, some⟩]; rfl⟩
  · rw [if_neg fun both => by simp [shape] at both]
    rcases List.eq_nil_or_concat' (t.splitOn '/') with none | ⟨front, s, whole⟩
    · exact absurd none (List.splitOn_ne_nil _ _)
    · have plain := plain_splitOn t
      rw [whole] at plain
      refine ⟨front, fun u member => plain u (List.mem_append_left _ member), ?_⟩
      rw [shape, ← rooted_splitOn, whole, rooted_last]
      exact rdropWhile_last _ (plain s (List.mem_append_right _ (List.mem_singleton_self s)))

theorem length_dropLastSegment (t : Text) : (dropLastSegment t).length ≤ t.length := by
  have shorter := (List.rdropWhile_prefix (· ≠ '/') t).length_le
  rw [dropLastSegment, List.length_dropLast]
  omega

theorem length_firstSegment (t : Text) : (firstSegment t).length ≤ t.length := by
  cases t with
  | nil => simp [firstSegment]
  | cons c rest => simpa [firstSegment] using (List.takeWhile_prefix (l := rest) (· ≠ '/')).length_le

/-- Nothing gets longer. -/
theorem length_removeDots (out input : Text) :
    (removeDots out input).length ≤ out.length + input.length := by
  fun_induction removeDots out input with
  | case1 => simp
  | case2 out input _ _ ih | case3 out input _ _ _ ih | case4 out input _ _ _ _ ih =>
    rw [List.length_drop] at ih
    omega
  | case5 out _ _ _ _ ih =>
    simp only [List.length_cons, List.length_nil] at ih ⊢
    omega
  | case6 out input _ _ _ _ _ _ ih =>
    have shorter := length_dropLastSegment out
    rw [List.length_drop] at ih
    omega
  | case7 out _ _ _ _ _ _ ih =>
    have shorter := length_dropLastSegment out
    simp only [List.length_cons, List.length_nil] at ih ⊢
    omega
  | case8 => omega
  | case9 out input _ _ _ _ _ _ _ _ ih =>
    have inside := length_firstSegment input
    rw [List.length_append, List.length_drop] at ih
    omega

end UriReference
