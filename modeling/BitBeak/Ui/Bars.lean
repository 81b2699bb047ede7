import BitBeak.Lib.Segments
import BitBeak.Session.Routing
import BitBeak.Ui.HitMap

/-! The bar of tabs and the bars of function keys: what is drawn in a column, and what a click on
it hits. -/
namespace BitBeak.Ui
open BitBeak Segments

/-- The session in front, as far as the function keys depend on it. -/
inductive FrontView where
  | none
  | stream (disconnected empty : Bool)
  | http
  | listen
  | proxy
  | diag
  | capture (file capturing : Bool)
  deriving DecidableEq, Repr

/-- A function key: its number, its name and what it does now. -/
structure FooterKey where
  n : Nat
  key : String
  label : String
  dim : Bool
  deriving DecidableEq, Repr

namespace FrontView

def f6 : FrontView → String × Bool
  | .capture true _ => ("—", true)
  | .capture false capturing => if capturing then ("Stop", false) else ("Start", false)
  | .http => ("Send", false)
  | .stream true _ => ("Reconnect", false)
  | .stream false empty => ("Replay", empty)
  | .listen => ("Send", false)
  | .diag => ("Run", false)
  | .proxy => ("Inject", false)
  | .none => ("Replay", true)

def row1 (front : FrontView) : List FooterKey :=
  let f7Dim := front ≠ .http
  [⟨1, "F1", "Help", false⟩, ⟨2, "F2", "New", false⟩, ⟨3, "F3", "Prev", false⟩,
    ⟨4, "F4", "Next", false⟩, ⟨5, "F5", "Format", false⟩, ⟨6, "F6", front.f6.1, front.f6.2⟩,
    ⟨7, "F7", "Bench", f7Dim⟩, ⟨8, "F8", "Filter", false⟩]

def row2 (front : FrontView) : List FooterKey :=
  let f11Dim := match front with
    | .stream _ _ | .listen => false
    | _ => true
  let f12Label := match front with
    | .capture _ _ => "Save"
    | _ => "Pcap"
  [⟨9, "F9", "Collect", false⟩, ⟨10, "F10", "Quit", false⟩, ⟨11, "F11", "Fuzz", f11Dim⟩,
    ⟨12, "F12", f12Label, false⟩]

end FrontView

namespace FooterKey

def keyS (k : FooterKey) : String := " " ++ k.key ++ " "

def labS (k : FooterKey) : String := k.label ++ " "

/-- The columns that are registered: the length of a text is that of its octets. -/
def registered (k : FooterKey) : Nat := u16 (k.keyS.utf8ByteSize + k.labS.utf8ByteSize)

/-- The columns that are drawn, one for a character. -/
def drawn (k : FooterKey) : Nat := (k.keyS ++ k.labS).length

end FooterKey

/-- The loop over the keys of a row, from column `x` on. -/
def renderFooterRow (y : Nat) : List FooterKey → Nat → HitMap → HitMap
  | [], _, hits => hits
  | k :: keys, x, hits =>
    renderFooterRow y keys (satAdd x k.registered)
      (hits.push (Rect.new x y k.registered 1) (.footerF k.n))

/-- `chunks` are the two rows that the area is split into. -/
def drawFooter (front : FrontView) (chunks : Rect × Rect) (hits : HitMap) : HitMap :=
  renderFooterRow chunks.2.y front.row2 chunks.2.x
    (renderFooterRow chunks.1.y front.row1 chunks.1.x hits)

/-- The key that is drawn in a column of a row. -/
def keyDrawn (keys : List FooterKey) (x col : Nat) : Option FooterKey :=
  if x ≤ col then (locate (keys.map FooterKey.drawn) (col - x)).bind fun s => keys[s.1]?
  else none

/-- The key that is registered for it. -/
def keyHit (keys : List FooterKey) (x col : Nat) : Option FooterKey :=
  if x ≤ col then (locate (keys.map FooterKey.registered) (col - x)).bind fun s => keys[s.1]?
  else none

theorem keyHit_cons (k : FooterKey) (keys : List FooterKey) {x col : Nat} (small : col < 65535) :
    keyHit (k :: keys) x col =
      if x ≤ col ∧ col < x + k.registered then some k else keyHit keys (satAdd x k.registered) col
      := by
  unfold keyHit
  by_cases before : x ≤ col
  · rw [if_pos before, List.map_cons, locate]
    by_cases here : col < x + k.registered
    · rw [if_pos (by omega), if_pos ⟨before, here⟩]
      rfl
    · have low : satAdd x k.registered = x + k.registered := Nat.min_eq_left (by omega)
      rw [if_neg (by omega), if_neg (by omega), low, if_pos (by omega), Nat.sub_sub]
      cases locate (keys.map FooterKey.registered) (col - (x + k.registered)) <;> rfl
  · have far : ¬ satAdd x k.registered ≤ col := by
      unfold satAdd
      omega
    rw [if_neg before, if_neg (by omega), if_neg far]

theorem hit_renderFooterRow {y : Nat} (top : y < 65535) (keys : List FooterKey) {x : Nat}
    (left : x ≤ 65535) (hits : HitMap) {col : Nat} (before : col < 65535) (row : Nat) :
    (renderFooterRow y keys x hits).hit col row =
      (if row = y then (keyHit keys x col).map fun k => .footerF k.n else none).or
        (hits.hit col row) := by
  induction keys generalizing x hits with
  | nil => simp [renderFooterRow, keyHit, locate]
  | cons k keys ih =>
    have next : satAdd x k.registered ≤ 65535 := Nat.min_le_right _ _
    rw [renderFooterRow, ih next, HitMap.hit_push, keyHit_cons k keys before]
    by_cases here : row = y
    · by_cases first : x ≤ col ∧ col < x + k.registered
      · have behind : keyHit keys (satAdd x k.registered) col = none := by
          unfold keyHit satAdd
          rw [if_neg (by omega)]
        have covered : (Rect.new x y k.registered 1).Covers col row :=
          (Rect.covers_new_cut left (by omega) before).mpr ⟨first.1, first.2, by omega⟩
        rw [if_pos here, if_pos here, if_pos first, behind, if_pos covered]
        rfl
      · have other : ¬ (Rect.new x y k.registered 1).Covers col row := fun covered =>
          have inside := (Rect.covers_new_cut left (by omega) before).mp covered
          first ⟨inside.1, inside.2.1⟩
        rw [if_pos here, if_pos here, if_neg first, if_neg other]
    · have other : ¬ (Rect.new x y k.registered 1).Covers col row := fun covered =>
        have inside := (Rect.covers_new_cut left (by omega) before).mp covered
        here (by omega)
      rw [if_neg here, if_neg here, if_neg other]

/- What is drawn against what is registered. -/

theorem keyHit_eq_keyDrawn {keys : List FooterKey}
    (same : keys.map FooterKey.registered = keys.map FooterKey.drawn) (x col : Nat) :
    keyHit keys x col = keyDrawn keys x col := by
  rw [keyHit, keyDrawn, same]

theorem row2_same (front : FrontView) :
    front.row2.map FooterKey.registered = front.row2.map FooterKey.drawn := by
  cases front with
  | stream disconnected empty => cases disconnected <;> cases empty <;> decide +kernel
  | capture file capturing => cases file <;> cases capturing <;> decide +kernel
  | _ => decide +kernel

theorem row1_same {front : FrontView} (noFile : ∀ capturing, front ≠ .capture true capturing) :
    front.row1.map FooterKey.registered = front.row1.map FooterKey.drawn := by
  cases front with
  | stream disconnected empty => cases disconnected <;> cases empty <;> decide +kernel
  | capture file capturing =>
    cases file with
    | true => exact absurd rfl (noFile capturing)
    | false => cases capturing <;> decide +kernel
  | _ => decide +kernel

/-- The key `F6` of a file has a label of one column and three octets. -/
theorem row1_file (capturing : Bool) :
    (FrontView.capture true capturing).row1.map FooterKey.registered =
        [9, 8, 9, 9, 11, 8, 10, 11] ∧
      (FrontView.capture true capturing).row1.map FooterKey.drawn =
        [9, 8, 9, 9, 11, 6, 10, 11] := by
  cases capturing <;> decide +kernel

theorem keyHit_file (capturing : Bool) {x col : Nat} (early : col < x + 52) :
    keyHit (FrontView.capture true capturing).row1 x col =
      keyDrawn (FrontView.capture true capturing).row1 x col := by
  unfold keyHit keyDrawn
  rw [(row1_file capturing).1, (row1_file capturing).2]
  split
  · have low : col - x < 52 := by omega
    by_cases five : col - x < 46
    · have same : ∀ ws, locate ([9, 8, 9, 9, 11] ++ ws) (col - x) =
          locate [9, 8, 9, 9, 11] (col - x) := fun ws => locate_append_left ws five
      exact congrArg (Option.bind · _) ((same [8, 10, 11]).trans (same [6, 10, 11]).symm)
    · have sixth : ∀ w ws, 6 ≤ w →
          locate ([9, 8, 9, 9, 11] ++ w :: ws) (col - x) = some (5, col - x - 46) := by
        intro w ws wide
        refine locate_eq_some.mpr ⟨w, rfl, by omega, ?_⟩
        change col - x = 46 + (col - x - 46)
        omega
      exact congrArg (Option.bind · _) ((sixth 8 [10, 11] (by decide)).trans
        (sixth 6 [10, 11] (by decide)).symm)
  · rfl

/-- A click on a row of the footer hits the key that is drawn in its column. -/
def KeysClicked (keys : List FooterKey) (chunk : Rect) (before after : HitMap) : Prop :=
  ∀ col, chunk.x ≤ col → col < chunk.x + chunk.width → col < 65535 →
    after.hit col chunk.y =
      ((keyDrawn keys chunk.x col).map fun k => .footerF k.n).or (before.hit col chunk.y)

/-- With an open file the keys behind `F6` are drawn two columns in front of where they are
clicked; everything else is clicked where it is drawn. -/
theorem footer_clicked (front : FrontView) (chunks : Rect × Rect) (hits : HitMap)
    (rows : chunks.1.y < chunks.2.y) (low : chunks.2.y < 65535) :
    KeysClicked front.row2 chunks.2 hits (drawFooter front chunks hits) ∧
      (KeysClicked front.row1 chunks.1 hits (drawFooter front chunks hits) ↔
        (∀ capturing, front ≠ .capture true capturing) ∨ chunks.1.width ≤ 52) := by
  have hit : ∀ col row, col < 65535 → (drawFooter front chunks hits).hit col row =
      (if row = chunks.2.y then (keyHit front.row2 chunks.2.x col).map fun k => .footerF k.n
        else none).or
        ((if row = chunks.1.y then (keyHit front.row1 chunks.1.x col).map fun k => .footerF k.n
          else none).or (hits.hit col row)) := by
    intro col row before
    have left : chunks.1.x ≤ 65535 := by
      have := chunks.1.right_fits
      omega
    have left' : chunks.2.x ≤ 65535 := by
      have := chunks.2.right_fits
      omega
    rw [drawFooter, hit_renderFooterRow low _ left' _ before,
      hit_renderFooterRow (by omega) _ left _ before]
  have first : ∀ col, col < 65535 → (drawFooter front chunks hits).hit col chunks.1.y =
      ((keyHit front.row1 chunks.1.x col).map fun k => .footerF k.n).or
        (hits.hit col chunks.1.y) := by
    intro col before
    rw [hit _ _ before, if_neg (by omega), if_pos rfl]
    rfl
  refine ⟨fun col _ _ before => ?_, fun clicked => ?_, ?_⟩
  · rw [hit _ _ before, if_pos rfl, if_neg (by omega),
      keyHit_eq_keyDrawn (row2_same front)]
    rfl
  · by_contra both
    push Not at both
    obtain ⟨⟨capturing, rfl⟩, wide⟩ := both
    have fits := chunks.1.right_fits
    have there := clicked (chunks.1.x + 52) (by omega) (by omega) (by omega)
    rw [first _ (by omega)] at there
    unfold keyHit keyDrawn at there
    rw [(row1_file capturing).1, (row1_file capturing).2, if_pos (by omega), if_pos (by omega),
      Nat.add_sub_cancel_left] at there
    revert there
    cases capturing <;> simp [locate, FrontView.row1]
  · rintro same col left right before
    rw [first _ before]
    rcases same with noFile | narrow
    · rw [keyHit_eq_keyDrawn (row1_same noFile)]
    · by_cases file : ∃ capturing, front = .capture true capturing
      · obtain ⟨capturing, rfl⟩ := file
        rw [keyHit_file capturing (by omega)]
      · rw [keyHit_eq_keyDrawn (row1_same fun capturing is => file ⟨capturing, is⟩)]

/-- The keys of a file are drawn from column 52 on where they are clicked from 54 on. -/
theorem file_keys_shifted :
    ¬ KeysClicked (FrontView.capture true false).row1 (Rect.new 0 22 80 1) {}
      (drawFooter (.capture true false) (Rect.new 0 22 80 1, Rect.new 0 23 80 1) {}) := by
  rw [(footer_clicked (.capture true false) (Rect.new 0 22 80 1, Rect.new 0 23 80 1) {}
    (by decide) (by decide)).2]
  rintro (noFile | narrow)
  · exact noFile false rfl
  · exact absurd narrow (by decide)

/- The tabs. -/

/-- The loop over the tabs, of which the `i`th is next and stands at column `x`. A bar is drawn
behind each that does not end at the border. -/
def drawTabs (y maxX : Nat) : List Nat → Nat → Nat → HitMap → Nat × HitMap
  | [], _, x, hits => (x, hits)
  | w :: ws, i, x, hits =>
    if maxX < satAdd x w then (x, hits)
    else
      let hits := hits.push (Rect.new x y w 1) (.tab i)
      let x := satAdd x w
      drawTabs y maxX ws (i + 1) (if x < maxX then satAdd x 1 else x) hits

/-- `labels` are the short tabs of the sessions, with a blank on both sides. -/
def drawHeader (area : Rect) (labels : List String) (hits : HitMap) : HitMap :=
  let inner := area.inner
  let maxX := satAdd inner.x inner.width
  let drawn := drawTabs inner.y maxX (labels.map fun l => u16 l.length) 0 inner.x hits
  if satAdd drawn.1 5 ≤ maxX then drawn.2.push (Rect.new drawn.1 inner.y 5 1) .newTab
  else drawn.2

/-- The tab that is drawn in a column, of those from column `x` on. -/
def tabDrawn (maxX : Nat) : List Nat → Nat → Nat → Option Nat
  | [], _, _ => none
  | w :: ws, x, col =>
    if maxX < x + w then none
    else if x ≤ col ∧ col < x + w then some 0
    else (tabDrawn maxX ws (x + w + 1) col).map (· + 1)

/-- A tab is drawn if its end fits; those in front of it do then. -/
theorem tabDrawn_eq_some {maxX : Nat} {ws : List Nat} {x col j : Nat} :
    tabDrawn maxX ws x col = some j ↔
      ∃ w, ws[j]? = some w ∧ x + (ws.take j).sum + j ≤ col ∧
        col < x + (ws.take j).sum + j + w ∧ x + (ws.take j).sum + j + w ≤ maxX := by
  induction ws generalizing x j with
  | nil => simp [tabDrawn]
  | cons w ws ih =>
    rw [tabDrawn]
    by_cases full : maxX < x + w
    · rw [if_pos full]
      constructor
      · exact fun impossible => nomatch impossible
      · rintro ⟨v, here, _, _, fits⟩
        cases j with
        | zero =>
          cases here
          simp only [List.take_zero, List.sum_nil] at fits
          omega
        | succ j =>
          simp only [List.take_succ_cons, List.sum_cons] at fits
          omega
    rw [if_neg full]
    by_cases first : x ≤ col ∧ col < x + w
    · rw [if_pos first]
      cases j with
      | zero =>
        refine iff_of_true rfl ⟨w, rfl, ?_⟩
        simp only [List.take_zero, List.sum_nil]
        omega
      | succ j =>
        refine iff_of_false (by simp) ?_
        rintro ⟨v, _, behind, _⟩
        simp only [List.take_succ_cons, List.sum_cons] at behind
        omega
    · rw [if_neg first]
      cases j with
      | zero =>
        refine iff_of_false (by simp) ?_
        rintro ⟨v, here, low, high, _⟩
        cases here
        exact first ⟨low, high⟩
      | succ j =>
        have inner : (tabDrawn maxX ws (x + w + 1) col).map (· + 1) = some (j + 1) ↔
            tabDrawn maxX ws (x + w + 1) col = some j := by
          cases tabDrawn maxX ws (x + w + 1) col <;> simp
        rw [inner, ih, List.getElem?_cons_succ, List.take_succ_cons, List.sum_cons]
        refine exists_congr fun v => and_congr_right fun _ => ?_
        constructor <;> (intro bounds; omega)

theorem tabDrawn_eq_none {maxX x : Nat} (full : maxX ≤ x) (ws : List Nat) (col : Nat) :
    tabDrawn maxX ws x col = none := by
  rw [Option.eq_none_iff_forall_ne_some]
  intro j drawn
  obtain ⟨w, _, _, _, _⟩ := tabDrawn_eq_some.mp drawn
  omega

theorem hit_drawTabs {y maxX : Nat} (top : y < 65535) (edge : maxX < 65535) (ws : List Nat)
    (i : Nat) {x : Nat} (left : x ≤ 65535) (hits : HitMap) {col : Nat} (before : col < 65535)
    (row : Nat) :
    (drawTabs y maxX ws i x hits).2.hit col row =
      (if row = y then (tabDrawn maxX ws x col).map fun j => .tab (i + j) else none).or
        (hits.hit col row) := by
  induction ws generalizing i x hits with
  | nil => simp [drawTabs, tabDrawn]
  | cons w ws ih =>
    rw [drawTabs, tabDrawn]
    by_cases full : maxX < x + w
    · have stop : maxX < satAdd x w := by
        unfold satAdd
        omega
      rw [if_pos stop, if_pos full]
      simp
    have next : satAdd x w = x + w := Nat.min_eq_left (by omega)
    rw [if_neg (by omega), if_neg full]
    dsimp only
    rw [next]
    have covers : (Rect.new x y w 1).Covers col row ↔ row = y ∧ x ≤ col ∧ col < x + w := by
      rw [Rect.covers_new_cut left (by omega) before]
      omega
    -- behind a tab that ends at the border nothing is drawn, with a bar or without
    have behind : tabDrawn maxX ws (if x + w < maxX then satAdd (x + w) 1 else x + w) col =
        tabDrawn maxX ws (x + w + 1) col := by
      split
      · rw [show satAdd (x + w) 1 = x + w + 1 from Nat.min_eq_left (by omega)]
      · rw [tabDrawn_eq_none (by omega), tabDrawn_eq_none (by omega)]
    rw [ih (i + 1) (by split <;> (try unfold satAdd) <;> omega), behind, HitMap.hit_push]
    by_cases here : row = y
    · rw [if_pos here, if_pos here]
      by_cases first : x ≤ col ∧ col < x + w
      · have none : tabDrawn maxX ws (x + w + 1) col = .none := by
          rw [Option.eq_none_iff_forall_ne_some]
          intro j drawn
          obtain ⟨v, _, low, _, _⟩ := tabDrawn_eq_some.mp drawn
          omega
        rw [if_pos first, if_pos (covers.mpr ⟨here, first⟩), none]
        rfl
      · rw [if_neg first, if_neg fun covered => first (covers.mp covered).2, Option.map_map]
        refine congrArg (Option.or · _) (congrArg (Option.map · _) ?_)
        funext j
        simp only [Function.comp_apply, Target.tab.injEq]
        omega
    · rw [if_neg here, if_neg here, if_neg fun covered => here (covers.mp covered).1]

theorem le_drawTabs {y maxX : Nat} (edge : maxX < 65535) (ws : List Nat) (i : Nat) {x : Nat}
    (left : x ≤ 65535) (hits : HitMap) :
    x ≤ (drawTabs y maxX ws i x hits).1 ∧ (drawTabs y maxX ws i x hits).1 ≤ 65535 ∧
      ∀ col j, tabDrawn maxX ws x col = some j → col < (drawTabs y maxX ws i x hits).1 := by
  induction ws generalizing i x hits with
  | nil => exact ⟨Nat.le_refl x, left, fun _ _ drawn => nomatch drawn⟩
  | cons w ws ih =>
    rw [drawTabs]
    by_cases full : maxX < x + w
    · have stop : maxX < satAdd x w := by
        unfold satAdd
        omega
      rw [if_pos stop]
      refine ⟨Nat.le_refl x, left, fun col j drawn => ?_⟩
      rw [tabDrawn, if_pos full] at drawn
      cases drawn
    have next : satAdd x w = x + w := Nat.min_eq_left (by omega)
    rw [if_neg (by omega)]
    dsimp only
    rw [next]
    obtain ⟨low, high, inside⟩ := @ih (i + 1) (if x + w < maxX then satAdd (x + w) 1 else x + w)
      (by split <;> (try unfold satAdd) <;> omega) (hits.push (Rect.new x y w 1) (.tab i))
    have past : x + w ≤ if x + w < maxX then satAdd (x + w) 1 else x + w := by
      split
      · unfold satAdd
        omega
      · exact Nat.le_refl _
    refine ⟨by omega, high, fun col j drawn => ?_⟩
    rw [tabDrawn, if_neg full] at drawn
    split at drawn
    · omega
    · obtain ⟨k, rest, _⟩ := Option.map_eq_some_iff.mp drawn
      by_cases more : x + w < maxX
      · refine inside col k ?_
        rw [if_pos more, show satAdd (x + w) 1 = x + w + 1 from Nat.min_eq_left (by omega)]
        exact rest
      · rw [tabDrawn_eq_none (by omega)] at rest
        cases rest

/-- Where the tabs begin, and where the tab at a place does. -/
def tabStart (inner : Rect) (widths : List Nat) (i : Nat) : Nat :=
  inner.x + (widths.take i).sum + i

/-- A click on the header selects a tab exactly where its label is drawn, and a label is drawn if
its end fits. -/
theorem tab_clicked (area : Rect) (wide : 2 ≤ area.width) (tall : 3 ≤ area.height)
    (labels : List String) {col : Nat} (before : col < 65535) (row i : Nat) :
    (drawHeader area labels {}).hit col row = some (.tab i) ↔
      ∃ w, (labels.map fun l => u16 l.length)[i]? = some w ∧ row = area.y + 1 ∧
        tabStart area.inner (labels.map fun l => u16 l.length) i ≤ col ∧
        col < tabStart area.inner (labels.map fun l => u16 l.length) i + w ∧
        tabStart area.inner (labels.map fun l => u16 l.length) i + w
          ≤ area.x + area.width - 1 := by
  set widths := labels.map fun l => u16 l.length
  have right := area.right_fits
  have bottom := area.bottom_fits
  have top : area.inner.y = area.y + 1 := by
    simp only [Rect.inner, Rect.bottom, Rect.bottom_eq]
    omega
  have end_eq : area.inner.x + area.inner.width = area.x + area.width - 1 := by
    simp only [Rect.inner, Rect.right, Rect.right_eq]
    omega
  have edge : area.x + area.width - 1 < 65535 := by omega
  have left : area.inner.x ≤ 65535 := by omega
  have tabs : ((drawTabs area.inner.y (area.x + area.width - 1) widths 0 area.inner.x {}).2.hit
      col row = some (.tab i)) ↔ row = area.y + 1 ∧
        tabDrawn (area.x + area.width - 1) widths area.inner.x col = some i := by
    rw [hit_drawTabs (by omega) edge widths 0 left {} before row, top]
    by_cases here : row = area.y + 1
    · rw [if_pos here]
      cases tabDrawn (area.x + area.width - 1) widths area.inner.x col <;>
        simp [here, HitMap.hit]
    · simp [here, HitMap.hit]
  have placed := le_drawTabs (y := area.inner.y) edge widths 0 left {}
  have closed : (∃ w, widths[i]? = some w ∧ row = area.y + 1 ∧
      tabStart area.inner widths i ≤ col ∧ col < tabStart area.inner widths i + w ∧
        tabStart area.inner widths i + w ≤ area.x + area.width - 1) ↔
      row = area.y + 1 ∧
        tabDrawn (area.x + area.width - 1) widths area.inner.x col = some i := by
    rw [tabDrawn_eq_some]
    unfold tabStart
    constructor
    · rintro ⟨w, here, at_row, bounds⟩
      exact ⟨at_row, w, here, bounds⟩
    · rintro ⟨at_row, w, here, bounds⟩
      exact ⟨w, here, at_row, bounds⟩
  rw [closed, ← tabs, drawHeader]
  simp only [Rect.right_eq, end_eq]
  split
  · rw [HitMap.hit_push]
    split
    · next covered =>
      have behind := ((Rect.covers_new_cut placed.2.1 (by omega) before).mp covered).1
      refine iff_of_false (by simp) fun hit => ?_
      have inside := placed.2.2 col i (tabs.mp hit).2
      omega
    · exact Iff.rfl
  · exact Iff.rfl

/-- The second of two tabs begins behind the bar. -/
theorem second_tab_clicked :
    (drawHeader (Rect.new 0 0 80 3) [" 1 tcp ", " 2 http "] {}).hit 9 1 = some (.tab 1) :=
  (tab_clicked (Rect.new 0 0 80 3) (by decide) (by decide) [" 1 tcp ", " 2 http "] (by decide)
    1 1).mpr ⟨8, rfl, rfl, by decide, by decide, by decide⟩

end BitBeak.Ui
