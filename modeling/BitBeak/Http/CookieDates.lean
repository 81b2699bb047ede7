import BitBeak.Http.Cookies
import BitBeak.Http.Words
import BitBeak.Lib.Calendar

/-! The dates at which cookies expire, as they are written in a header. -/
namespace BitBeak.Http
open BoolText Calendar

/-- A date whose year is a number of 32 bits. -/
structure HttpDate extends DateTime where
  small : year < 2 ^ 31

inductive Weekday where
  | mon
  | tue
  | wed
  | thu
  | fri
  | sat
  | sun

def Weekday.name : Weekday → String
  | .mon => "Mon"
  | .tue => "Tue"
  | .wed => "Wed"
  | .thu => "Thu"
  | .fri => "Fri"
  | .sat => "Sat"
  | .sun => "Sun"

def monthName (month : Nat) : String :=
  ["Jan", "Feb", "Mar", "Apr", "May", "Jun", "Jul", "Aug", "Sep", "Oct", "Nov", "Dec"].getD
    (month - 1) ""

def twoDigits (n : Nat) : String := String.ofList [Nat.digitChar (n / 10), Nat.digitChar (n % 10)]

def timeOfDay (t : DateTime) : String :=
  twoDigits t.hour ++ ":" ++ twoDigits t.minute ++ ":" ++ twoDigits t.second

/-- `IMF-fixdate`. -/
def imfFixdate (weekday : Weekday) (t : DateTime) : String :=
  weekday.name ++ ", " ++ twoDigits t.day ++ " " ++ monthName t.month ++ " " ++ toString t.year ++
    " " ++ timeOfDay t ++ " GMT"

/- The arithmetic. -/

theorem wrap32_small {n : Int} (low : -2 ^ 31 ≤ n) (high : n < 2 ^ 31) : wrap32 n = n := by
  rw [wrap32]
  exact Int.bmod_eq_of_le (by omega) (by omega)

/-- The days of the calendar in closed form, with years that begin in March. -/
theorem dayNumber_eq (t : DateTime) :
    let y : Int := if t.month ≤ 2 then (t.year : Int) - 1 else t.year
    let yoe : Int := y - y / 400 * 400
    let doy : Int := (153 * ((t.month : Int) + if 2 < t.month then -3 else 9) + 2) / 5 + t.day - 1
    y / 400 * 146097 + (yoe * 365 + yoe / 4 - yoe / 100 + doy) - 719468 = t.dayNumber := by
  have years := daysSince_eq t.since
  have months := daysBefore_eq t.year t.months.1 t.months.2
  have since := t.since
  have first := t.days.1
  have month := t.months
  simp only [DateTime.dayNumber, Nat.cast_add]
  split at months
  · next winter =>
    rw [if_pos winter, if_neg (by omega)]
    omega
  · next summer =>
    rw [if_neg summer, if_pos (by omega)]
    split at months
    · next leap =>
      obtain ⟨four, hundred⟩ := leap
      omega
    · next common =>
      simp only [Leap, not_and_or, not_or, not_not] at common
      omega

theorem day_le (t : DateTime) : t.day ≤ 31 := by
  have most := t.days.2
  rw [monthDays] at most
  split at most
  · split at most <;> omega
  · split at most <;> omega

/-- The closed form counts the days of the calendar, and no number in it is too large. -/
theorem civilSeconds_eq (t : HttpDate) :
    civilSeconds t.year t.month t.day t.hour t.minute t.second = t.secondNumber := by
  have closed := dayNumber_eq t.toDateTime
  have since := t.since
  have small := t.small
  have months := t.months
  have first := t.days.1
  have last := day_le t.toDateTime
  have year : (if (t.month : Int) ≤ 2 then wrap32 ((t.year : Int) - 1) else t.year) =
      if t.month ≤ 2 then (t.year : Int) - 1 else t.year := by
    rw [wrap32_small (by omega) (by omega)]
    exact if_congr (by omega) rfl rfl
  have shift : (if (2 : Int) < t.month then (-3 : Int) else 9) = if 2 < t.month then -3 else 9 :=
    if_congr (by omega) rfl rfl
  have shifted : (0 : Int) ≤ t.month + (if 2 < t.month then -3 else 9) ∧
      (t.month : Int) + (if 2 < t.month then -3 else 9) ≤ 11 := by
    split <;> omega
  simp only [civilSeconds, year, shift]
  generalize (if 2 < t.month then (-3 : Int) else 9) = move at closed shifted
  generalize (if t.month ≤ 2 then (t.year : Int) - 1 else t.year) = y at closed
  rw [wrap32_small (n := (t.day : Int)) (by omega) (by omega),
    wrap32_small (n := _ / 5 + _) (by omega) (by omega),
    wrap32_small (n := _ - 1) (by omega) (by omega),
    wrap32_small (by omega) (by omega), DateTime.secondNumber]
  dsimp only at closed
  push_cast
  rw [← closed]

/- The text. -/

section
variable {n : Nat} (small : n < 100)
include small

theorem twoDigits_decimal : ∀ c ∈ (twoDigits n).toList, c.isDigit = true := by
  intro c member
  rw [twoDigits, String.toList_ofList] at member
  have digit : ∀ d, d < 10 → (Nat.digitChar d).isDigit = true := by decide
  simp only [List.mem_cons, List.not_mem_nil, or_false] at member
  rcases member with rfl | rfl
  · exact digit _ (by omega)
  · exact digit _ (by omega)

theorem twoDigits_value : Nat.ofDigitChars 10 (twoDigits n).toList 0 = n := by
  rw [twoDigits, String.toList_ofList, Nat.ofDigitChars_cons_digitChar_of_lt_ten (by omega),
    Nat.ofDigitChars_cons_digitChar_of_lt_ten (by omega), Nat.ofDigitChars_nil]
  omega

theorem parseUnsigned_twoDigits : parseUnsigned (2 ^ 32) (twoDigits n) = some n := by
  have value := twoDigits_value small
  have range : Nat.ofDigitChars 10 (twoDigits n).toList 0 < 2 ^ 32 := by omega
  have read := parseUnsigned_digits (by simp [twoDigits]) (twoDigits_decimal small) range
  rwa [String.ofList_toList, value] at read

end

theorem parseSigned_year {n : Nat} (small : n < 2 ^ 31) :
    parseSigned (2 ^ 31) (toString n) = some (n : Int) := by
  have value : Nat.ofDigitChars 10 (toString n).toList 0 = n := by
    rw [toList_toString, Nat.ofDigitChars_ten_toDigits]
  have range : Nat.ofDigitChars 10 (toString n).toList 0 < 2 ^ 31 := by omega
  have read := parseSigned_digits (by rw [toList_toString]; exact Nat.toDigits_ne_nil)
    (by rw [toList_toString]; exact digits_all) range
  rwa [String.ofList_toList, value] at read

theorem monthNumber_monthName {month : Nat} (first : 1 ≤ month) (last : month ≤ 12) :
    monthNumber (monthName month) = some (month : Int) := by
  interval_cases month <;> decide

/-- The parts of a time between its colons. -/
theorem splitText_timeOfDay (t : DateTime) :
    splitText ':' (timeOfDay t) = [twoDigits t.hour, twoDigits t.minute, twoDigits t.second] := by
  have plain : ∀ {n}, n < 60 → ':' ∉ (twoDigits n).toList := fun small member =>
    absurd (twoDigits_decimal (by omega) ':' member) (by decide)
  have joined : (timeOfDay t).toList = [':'].intercalate
      [(twoDigits t.hour).toList, (twoDigits t.minute).toList, (twoDigits t.second).toList] := by
    simp [timeOfDay, List.intercalate_cons_cons]
  rw [splitText, joined, List.splitOn_intercalate ':' _ (List.cons_ne_nil _ _)]
  · simp
  · simp only [List.forall_mem_cons, List.not_mem_nil, false_implies, implies_true, and_true]
    have hours := t.hours
    exact ⟨plain (by omega), plain t.minutes, plain t.seconds⟩

def Solid (word : String) : Prop :=
  word.toList ≠ [] ∧ ∀ c ∈ word.toList, isWhitespace c = false

theorem solid_twoDigits {n : Nat} (small : n < 100) : Solid (twoDigits n) :=
  ⟨by simp [twoDigits], fun c member => digit_visible (twoDigits_decimal small c member)⟩

theorem solid_timeOfDay (t : DateTime) : Solid (timeOfDay t) := by
  have hours := t.hours
  have minutes := t.minutes
  have seconds := t.seconds
  constructor
  · simp [timeOfDay]
  · intro c member
    simp only [timeOfDay, String.toList_append, List.mem_append] at member
    rcases member with (((inside | mark) | inside) | mark) | inside
    · exact (solid_twoDigits (by omega)).2 c inside
    · rw [show c = ':' by simpa using mark]
      decide
    · exact (solid_twoDigits (by omega)).2 c inside
    · rw [show c = ':' by simpa using mark]
      decide
    · exact (solid_twoDigits (by omega)).2 c inside

theorem solid_monthName {month : Nat} (first : 1 ≤ month) (last : month ≤ 12) :
    Solid (monthName month) := by
  interval_cases month <;> simp [Solid, monthName, isWhitespace]

theorem solid_weekday (weekday : Weekday) : Solid (weekday.name ++ ",") := by
  cases weekday <;> simp [Solid, Weekday.name, isWhitespace]

theorem solid_year (n : Nat) : Solid (toString n) := by
  rw [Solid, toList_toString]
  exact ⟨Nat.toDigits_ne_nil, fun c member => digit_visible (digits_all c member)⟩

/-- The words of a date. -/
theorem splitWhitespace_imfFixdate (weekday : Weekday) (t : DateTime) :
    splitWhitespace (imfFixdate weekday t) =
      [weekday.name ++ ",", twoDigits t.day, monthName t.month, toString t.year, timeOfDay t,
        "GMT"] := by
  have text : imfFixdate weekday t = String.ofList (spaced
      ([weekday.name ++ ",", twoDigits t.day, monthName t.month, toString t.year, timeOfDay t,
        "GMT"].map String.toList)) := by
    rw [← String.toList_inj, String.toList_ofList]
    simp [imfFixdate, spaced, List.intercalate_cons_cons]
  have zone : Solid "GMT" := by simp [Solid, isWhitespace]
  have day := day_le t
  rw [text, splitWhitespace_spaced (by simp)]
  · simp only [List.map_map, Function.comp_def, String.ofList_toList, List.map_id']
  · rw [List.forall_mem_map]
    simp only [List.forall_mem_cons, List.not_mem_nil, false_implies, implies_true, and_true]
    exact ⟨solid_weekday weekday, solid_twoDigits (by omega),
      solid_monthName t.months.1 t.months.2, solid_year t.year, solid_timeOfDay t, zone⟩

theorem parseHttpDate_imfFixdate (weekday : Weekday) (t : HttpDate) :
    parseHttpDate (imfFixdate weekday t.toDateTime) = some t.secondNumber := by
  have day := day_le t.toDateTime
  have hours := t.hours
  have minutes := t.minutes
  have seconds := t.seconds
  have read {n : Nat} (small : n < 100) := parseUnsigned_twoDigits small
  have positive : ¬ (t.secondNumber : Int) < 0 := by omega
  rw [parseHttpDate, splitWhitespace_imfFixdate]
  simp only [List.length_cons, List.length_nil, List.getD_eq_getElem?_getD,
    List.getElem?_cons_succ, List.getElem?_cons_zero, Option.getD_some, splitText_timeOfDay,
    read (show t.day < 100 by omega), read (show t.hour < 100 by omega),
    read (show t.minute < 100 by omega), read (show t.second < 100 by omega),
    monthNumber_monthName t.months.1 t.months.2, parseSigned_year t.small, Option.bind_eq_bind,
    Option.bind_some, civilSeconds_eq t, if_neg positive, Int.toNat_natCast]
  rfl

end BitBeak.Http
