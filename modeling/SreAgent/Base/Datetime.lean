import Mathlib
import SreAgent.Base.IsoTime

/-!
# Aware datetimes and their text

A `datetime` with a time zone is a wall clock, in microseconds since the first of January of
year 1, and the offset of its zone. `isoformat` writes it; `fromisoformat` is the reader of
CPython 3.12, with every spelling it takes: week dates, dates and times without separators,
fractions of any length. An aware datetime reads back from its text, unless its offset is not zero
and less than a second, which is read as UTC (`fromisoformat_isoformat`).
-/

namespace SreAgent.Base.Iso
open IsoTime

/-- The microseconds of a day, and of the years 1 to 9999. -/
def dayLength : Nat := 86400000000

def calendarLength : Nat := 315537897600000000

/-- A `datetime` with a time zone, within the calendar and with an offset of less than a day. -/
structure AwareDatetime where
  wall : Nat
  offset : Int
  wall_lt : wall < calendarLength
  offset_lt : -dayLength < offset ∧ offset < dayLength

/-- A `datetime`: without a time zone, or with one. -/
inductive Datetime where
  | naive (wall : Nat)
  | aware (t : AwareDatetime)

/-- The instant, in microseconds since the first of January of year 1 in UTC. -/
def AwareDatetime.instant (t : AwareDatetime) : Int := t.wall - t.offset

/-- An instant of the years 1 to 9999 in UTC. -/
abbrev Instant := Fin calendarLength

/-- The datetime of an instant in UTC. -/
def AwareDatetime.utc (instant : Instant) : AwareDatetime := ⟨instant.val, 0, instant.isLt, by decide⟩

/-! ## Writing -/

/-- The wall clock. -/
def wallText (wall : Nat) : List Char :=
  let day := wall / dayLength
  let year := yearOf day
  let (month, dayOfMonth) := monthOf (monthLengths year) 1 (day - daysBefore year)
  let second := wall % dayLength / 1000000
  let fraction := wall % dayLength % 1000000
  padded 4 year ++ '-' :: padded 2 month ++ '-' :: padded 2 dayOfMonth ++ 'T' :: padded 2 (second / 3600) ++
    ':' :: padded 2 (second / 60 % 60) ++ ':' :: padded 2 (second % 60) ++
      (if fraction = 0 then [] else '.' :: padded 6 fraction)

/-- The offset: hours and minutes, with seconds and microseconds only where there are some. -/
def offsetText (offset : Int) : List Char :=
  let second := offset.natAbs / 1000000
  let fraction := offset.natAbs % 1000000
  (if offset < 0 then '-' else '+') :: padded 2 (second / 3600) ++ ':' :: padded 2 (second / 60 % 60) ++
    (if fraction ≠ 0 then ':' :: padded 2 (second % 60) ++ '.' :: padded 6 fraction
    else if second % 60 ≠ 0 then ':' :: padded 2 (second % 60) else [])

/-- `datetime.isoformat`. -/
def AwareDatetime.isoformat (t : AwareDatetime) : String :=
  String.ofList (wallText t.wall ++ offsetText t.offset)

/-! ## Reading -/

/-- The character that ends a C string. -/
def nul : Char := Char.ofNat 0

/-- `n` digits and what follows them. -/
def takeDigits (n : Nat) (cs : List Char) : Option (Nat × List Char) :=
  let digits := cs.take n
  if digits.length = n ∧ digits.all Char.isDigit = true then some (Nat.ofDigitChars 10 digits 0, cs.drop n)
    else none

/-- Up to six digits of a fraction, in microseconds, and whether something follows its digits. -/
def fraction (cs : List Char) : Option (Nat × Bool) :=
  let n := min 6 cs.length
  (takeDigits n cs).map fun (value, rest) =>
    (value * 10 ^ (6 - n), (rest.dropWhile Char.isDigit).headD nul ≠ nul)

/-- Hours, minutes and seconds, or the first of them, the fraction, and whether something follows.
`left` components may follow the next one, behind a colon if `colon` says so; the first component
settles whether. -/
def clock (colon : Option Bool) (left : Nat) (cs : List Char) : Option (List Nat × Nat × Bool) := do
  let (value, rest) ← takeDigits 2 cs
  match rest with
  | [] => some ([value], 0, false)
  | c :: more =>
    if more = [] ∧ c.toNat < 128 then some ([value], 0, c ≠ nul)
    else
      let colon := colon.getD (c = ':')
      let further (cs : List Char) : Option (List Nat × Nat × Bool) :=
        match left with
        | 0 => (fraction cs).map fun (value, trailing) => ([], value, trailing)
        | left + 1 => clock (some colon) left cs
      if colon = true ∧ c = ':' then (further more).map fun (values, rest) => (value :: values, rest)
      else if c = '.' ∨ c = ',' then (fraction more).map fun (micros, trailing) => ([value], micros, trailing)
      else if colon = false then (further rest).map fun (values, rest) => (value :: values, rest)
      else none

/-- The microseconds of hours, minutes, seconds and a fraction. -/
def micros (fields : List Nat) (fraction : Nat) : Nat :=
  ((fields.getD 0 0 * 60 + fields.getD 1 0) * 60 + fields.getD 2 0) * 1000000 + fraction

/-- `tzinfo_from_isoformat_results`: without hours, minutes and seconds the zone is UTC, whatever the
fraction. -/
def zoneOffset (sign : Char) (fields : List Nat) (fraction : Nat) : Int :=
  if micros fields 0 = 0 then 0 else if sign = '-' then -(micros fields fraction : Int)
    else micros fields fraction

/-- A character before the time zone. -/
def beforeZone (c : Char) : Bool := c ≠ '+' && c ≠ '-' && c ≠ 'Z'

/-- `parse_isoformat_time`: the time of day and the offset, if the text has one. -/
def parseTime (cs : List Char) : Option (Nat × Option Int) := do
  let (fields, micro, trailing) ← clock none 2 (cs.takeWhile beforeZone)
  let offset ← match cs.dropWhile beforeZone with
    | [] => if trailing = true then none else some none
    | sign :: zone =>
      if sign = 'Z' then if zone.headD nul = nul then some (some 0) else none
      else do
        let (fields, micro, trailing) ← clock none 2 zone
        if trailing = true then none
        else some (some (zoneOffset sign fields micro))
  if fields.getD 0 0 < 24 ∧ fields.getD 1 0 < 60 ∧ fields.getD 2 0 < 60
    then some (micros fields micro, offset) else none

/-- `_find_isoformat_datetime_separator`: the length of the date. -/
def dateLength (cs : List Char) : Option Nat :=
  if cs.length = 7 then some 7
  else if cs.getD 4 nul = '-' then
    if cs.getD 5 nul = 'W' then
      if 8 < cs.length ∧ cs.getD 8 nul = '-' then
        if cs.length = 9 then none else if 10 < cs.length ∧ (cs.getD 10 nul).isDigit then some 8 else some 10
      else some 8
    else some 10
  else if cs.getD 4 nul = 'W' then
    let digits := ((cs.drop 7).takeWhile Char.isDigit).length
    if 7 + digits < 9 then some (7 + digits) else if (7 + digits) % 2 = 0 then some 7 else some 8
  else some 8

/-- The day of a calendar date. -/
def dayOfDate (year month day : Nat) : Option Nat :=
  if 1 ≤ year ∧ 1 ≤ month ∧ month ≤ 12 ∧ 1 ≤ day ∧ day ≤ (monthLengths year).getD (month - 1) 0 then
    some (daysBefore year + ((monthLengths year).take (month - 1)).sum + (day - 1))
  else none

/-- `iso_to_ymd`: the day of a week date. Day 0 is a Monday, and the first week holds the first
Thursday of the year. -/
def dayOfWeek (year week day : Nat) : Option Nat :=
  let first := daysBefore year % 7
  let long := first = 3 ∨ first = 2 ∧ isLeap year = true
  if 1 ≤ year ∧ 1 ≤ week ∧ (week ≤ 52 ∨ week = 53 ∧ long) ∧ 1 ≤ day ∧ day ≤ 7 then
    some (daysBefore year + (if 3 < first then 7 else 0) - first + (week - 1) * 7 + (day - 1))
  else none

/-- A hyphen, if the date has separators. -/
def separator (separated : Bool) (cs : List Char) : Option (List Char) :=
  if separated = true then match cs with
    | '-' :: rest => some rest
    | _ => none
  else some cs

/-- `parse_isoformat_date`: the day of a date of `length` characters. -/
def parseDate (length : Nat) (cs : List Char) : Option Nat := do
  let (year, rest) ← takeDigits 4 cs
  let separated := rest.head? = some '-'
  let rest := if separated then rest.drop 1 else rest
  if rest.head? = some 'W' then
    let (week, rest) ← takeDigits 2 (rest.drop 1)
    if cs.length - rest.length < length then
      let rest ← separator separated rest
      let (day, _) ← takeDigits 1 rest
      dayOfWeek year week day
    else dayOfWeek year week 1
  else do
    let (month, rest) ← takeDigits 2 rest
    let rest ← separator separated rest
    let (day, _) ← takeDigits 2 rest
    dayOfDate year month day

/-- The constructor of `datetime` and that of its time zone. -/
def construct (day time : Nat) : Option Int → Option Datetime
  | none => if day * dayLength + time < calendarLength then some (.naive (day * dayLength + time)) else none
  | some offset =>
    if h : day * dayLength + time < calendarLength ∧ (-dayLength : Int) < offset ∧ offset < dayLength then
      some (.aware ⟨day * dayLength + time, offset, h.1, h.2⟩)
    else none

/-- `datetime.fromisoformat`; `none` is its `ValueError`. -/
def fromisoformat (cs : List Char) : Option Datetime :=
  if cs.length < 7 then none
  else do
    let length ← dateLength cs
    let day ← parseDate length cs
    let (time, offset) ← match cs.drop length with
      | [] => some (0, none)
      | _ :: time => parseTime time
    construct day time offset

/-! ## Numbers read back -/

section Digits

variable {width n : Nat} (pos : 0 < width) (small : n < 10 ^ width) (tail : List Char)

theorem padded_digits (width n : Nat) : ∀ c ∈ padded width n, c.isDigit = true := by
  intro c hc
  rcases List.mem_append.1 hc with hc | hc
  · rw [List.eq_of_mem_replicate hc]
    rfl
  · exact Nat.isDigit_of_mem_toDigits (by decide) (by decide) hc

include pos small

/-- A padded number is read back. -/
theorem takeDigits_padded : takeDigits width (padded width n ++ tail) = some (n, tail) := by
  have length := padded_length pos small
  have taken : (padded width n ++ tail).take width = padded width n := List.take_left' length
  have digits : (padded width n).all Char.isDigit = true := List.all_eq_true.2 (padded_digits width n)
  simp only [takeDigits, taken, length, digits, and_self, if_true, ofDigitChars_padded,
    List.drop_left' length]

/-- A padded number begins with a digit. -/
theorem head_padded : ∃ c, (padded width n ++ tail).head? = some c ∧ c.isDigit = true := by
  have length := padded_length pos small
  match cs : padded width n with
  | [] =>
    rw [cs] at length
    exact absurd length.symm (Nat.ne_of_gt pos)
  | c :: rest => exact ⟨c, rfl, padded_digits width n c (cs ▸ List.mem_cons_self)⟩

end Digits

/-! ## Times read back -/

section Clock

variable {value micro : Nat} (colon : Option Bool) (left : Nat)

/-- A field at the end of the clock is read. -/
theorem clock_last (small : value < 100) : clock colon left (padded 2 value) = some ([value], 0, false) := by
  have taken := takeDigits_padded (by decide : 0 < 2) small []
  rw [List.append_nil] at taken
  rw [clock.eq_def, taken]
  rfl

/-- A field with a colon behind it is read, then the next one. -/
theorem clock_colon (small : value < 100) (behind : colon.getD true = true) {more : List Char}
    (ne : more ≠ []) :
    clock colon (left + 1) (padded 2 value ++ ':' :: more) =
      (clock (some true) left more).map fun (values, rest) => (value :: values, rest) := by
  rw [clock.eq_def, takeDigits_padded (by decide) small]
  simp only [Option.bind_eq_bind, Option.bind_some, ne, false_and, if_false, decide_true, behind, and_self,
    if_true]

/-- Six digits are the microseconds. -/
theorem fraction_padded (small : micro < 1000000) : fraction (padded 6 micro) = some (micro, false) := by
  have taken := takeDigits_padded (by decide : 0 < 6) small []
  rw [List.append_nil] at taken
  rw [fraction, padded_length (by decide) small, Nat.min_self, taken]
  simp [nul]

/-- A field with a fraction behind it is read. -/
theorem clock_fraction (small : value < 100) (micro_lt : micro < 1000000) :
    clock (some true) left (padded 2 value ++ '.' :: padded 6 micro) = some ([value], micro, false) := by
  have ne : padded 6 micro ≠ [] := by
    intro nil
    have length := padded_length (by decide : 0 < 6) micro_lt
    rw [nil] at length
    cases length
  rw [clock.eq_def, takeDigits_padded (by decide) small]
  simp only [Option.bind_eq_bind, Option.bind_some, ne, false_and, if_false, Option.getD_some,
    Char.reduceEq, and_false, true_or, if_true, fraction_padded micro_lt, Option.map_some]

end Clock

theorem padded_ne_nil {width n : Nat} (pos : 0 < width) (small : n < 10 ^ width) (tail : List Char) :
    padded width n ++ tail ≠ [] := by
  obtain ⟨c, head, -⟩ := head_padded pos small tail
  intro nil
  rw [nil] at head
  cases head

/-- Hours, minutes, seconds, and microseconds unless there are none. -/
theorem clock_time {hour minute second micro : Nat} (h : hour < 100) (m : minute < 100) (s : second < 100)
    (f : micro < 1000000) :
    clock none 2 (padded 2 hour ++ ':' :: (padded 2 minute ++ ':' :: (padded 2 second ++
      if micro = 0 then [] else '.' :: padded 6 micro))) = some ([hour, minute, second], micro, false) := by
  rw [clock_colon none 1 h rfl (padded_ne_nil (by decide) m _),
    clock_colon (some true) 0 m rfl (padded_ne_nil (by decide) s _)]
  split
  · next none_ =>
    rw [List.append_nil, clock_last (some true) 0 s, none_]
    rfl
  · rw [clock_fraction 0 s f]
    rfl

/-- The text of an offset without its sign. -/
theorem clock_offset {offset : Nat} (lt : offset < dayLength) : ∃ fields micro,
    clock none 2 (padded 2 (offset / 1000000 / 3600) ++ ':' :: (padded 2 (offset / 1000000 / 60 % 60) ++
      if offset % 1000000 ≠ 0 then ':' ::
        (padded 2 (offset / 1000000 % 60) ++ '.' :: padded 6 (offset % 1000000))
      else if offset / 1000000 % 60 ≠ 0 then ':' :: padded 2 (offset / 1000000 % 60) else [])) =
        some (fields, micro, false) ∧
    micros fields micro = offset ∧ (micros fields 0 = 0 ↔ offset < 1000000) := by
  have day : offset < 86400000000 := lt
  have h : offset / 1000000 / 3600 < 100 := by omega
  have m : offset / 1000000 / 60 % 60 < 100 := by omega
  have s : offset / 1000000 % 60 < 100 := by omega
  rw [clock_colon none 1 h rfl (padded_ne_nil (by decide) m _)]
  split
  · next some_ =>
    rw [clock_colon (some true) 0 m rfl (padded_ne_nil (by decide) s _),
      clock_fraction 0 s (Nat.mod_lt _ (by decide))]
    refine ⟨_, _, rfl, ?_⟩
    simp only [micros, List.getD_cons_zero, List.getD_cons_succ]
    constructor <;> omega
  · next none_ =>
    split
    · next some_ =>
      have ne : padded 2 (offset / 1000000 % 60) ≠ [] := by
        have := padded_ne_nil (by decide : 0 < 2) s []
        rwa [List.append_nil] at this
      rw [clock_colon (some true) 0 m rfl ne, clock_last (some true) 0 s]
      refine ⟨_, _, rfl, ?_⟩
      simp only [micros, List.getD_cons_zero, List.getD_cons_succ]
      constructor <;> omega
    · next zero =>
      rw [List.append_nil, clock_last (some true) 1 m]
      refine ⟨_, _, rfl, ?_⟩
      simp only [micros, List.getD_cons_zero, List.getD_cons_succ, List.getD_nil]
      constructor <;> omega

/-! ## Datetimes read back -/

/-- Within its lengths, a day of a year falls into a month. -/
theorem monthOf_within {lengths : List Nat} {first day month dayOfMonth : Nat} (within : day < lengths.sum)
    (h : monthOf lengths first day = (month, dayOfMonth)) :
    month < first + lengths.length ∧ dayOfMonth ≤ lengths.getD (month - first) 0 := by
  induction lengths generalizing first day with
  | nil => cases within
  | cons length rest ih =>
    rw [List.sum_cons] at within
    rw [monthOf] at h
    split at h
    · next inside =>
      cases h
      simp only [List.length_cons, Nat.sub_self, List.getD_cons_zero]
      omega
    · next past =>
      obtain ⟨lt, le⟩ := ih (by omega) h
      have after := (monthOf_spec h).1
      have succ : month - first = (month - (first + 1)) + 1 := by omega
      rw [succ, List.getD_cons_succ, List.length_cons]
      exact ⟨by omega, le⟩

/-- A written date is read as its day. -/
theorem parseDate_text {year month day : Nat} (y : year < 10000) (m : month < 100) (d : day < 100)
    (rest : List Char) :
    parseDate 10 (padded 4 year ++ '-' :: (padded 2 month ++ '-' :: (padded 2 day ++ rest))) =
      dayOfDate year month day := by
  have two : 0 < 2 := by decide
  obtain ⟨c, head, digit⟩ := head_padded two m ('-' :: (padded 2 day ++ rest))
  have noWeek : ¬ (padded 2 month ++ '-' :: (padded 2 day ++ rest)).head? = some 'W' := by
    rw [head, Option.some.injEq]
    rintro rfl
    cases digit
  rw [parseDate, takeDigits_padded (by decide : 0 < 4) y]
  simp only [Option.bind_eq_bind, Option.bind_some, List.head?_cons, decide_true, if_true, List.drop_one,
    List.tail_cons, noWeek, if_false, takeDigits_padded two m, separator, takeDigits_padded two d]

/-- A written date is ten characters long. -/
theorem dateLength_text {year month day : Nat} (y : year < 10000) (m : month < 100) (d : day < 100)
    (rest : List Char) :
    dateLength (padded 4 year ++ '-' :: (padded 2 month ++ '-' :: (padded 2 day ++ rest))) = some 10 := by
  have four := padded_length (by decide : 0 < 4) y
  have twoMonth := padded_length (by decide : 0 < 2) m
  have twoDay := padded_length (by decide : 0 < 2) d
  obtain ⟨c, head, digit⟩ := head_padded (by decide : 0 < 2) m ('-' :: (padded 2 day ++ rest))
  have hyphen : (padded 4 year ++ '-' :: (padded 2 month ++ '-' :: (padded 2 day ++ rest))).getD 4 nul =
      '-' := by
    rw [List.getD_eq_getElem?_getD, List.getElem?_append_right (by omega), four]
    rfl
  have next : (padded 4 year ++ '-' :: (padded 2 month ++ '-' :: (padded 2 day ++ rest))).getD 5 nul = c := by
    rw [List.getD_eq_getElem?_getD, List.getElem?_append_right (by omega), four, List.getElem?_cons_succ,
      ← List.head?_eq_getElem?, head]
    rfl
  have noWeek : ¬ c = 'W' := by
    rintro rfl
    cases digit
  have length : ¬ (padded 4 year ++ '-' :: (padded 2 month ++ '-' :: (padded 2 day ++ rest))).length = 7 := by
    simp only [List.length_append, List.length_cons]
    omega
  rw [dateLength, if_neg length, if_pos hyphen, next, if_neg noWeek]

/-- Behind a written date stands the rest. -/
theorem drop_date {year month day : Nat} (y : year < 10000) (m : month < 100) (d : day < 100)
    (rest : List Char) :
    (padded 4 year ++ '-' :: (padded 2 month ++ '-' :: (padded 2 day ++ rest))).drop 10 = rest := by
  rw [drop_past (by decide : 0 < 4) y _ _ 5, drop_past (by decide : 0 < 2) m _ _ 2,
    List.drop_left' (padded_length (by decide : 0 < 2) d)]

/-- The day of a wall clock reads back from its date. -/
theorem dayOfDate_wall {wall month day : Nat} (lt : wall < calendarLength)
    (h : monthOf (monthLengths (yearOf (wall / dayLength))) 1
      (wall / dayLength - daysBefore (yearOf (wall / dayLength))) = (month, day)) :
    dayOfDate (yearOf (wall / dayLength)) month day = some (wall / dayLength) ∧ month < 100 ∧ day < 100 := by
  have days : wall / dayLength < 3652059 := Nat.div_lt_of_lt_mul lt
  obtain ⟨begins, ends, yearPos, yearLe⟩ := yearOf_spec days
  obtain ⟨monthPos, -, dayPos, dayLe, sum⟩ := monthOf_spec h
  have within : wall / dayLength - daysBefore (yearOf (wall / dayLength)) <
      (monthLengths (yearOf (wall / dayLength))).sum := by
    have := daysBefore_succ yearPos
    omega
  obtain ⟨monthLt, dayWithin⟩ := monthOf_within within h
  have longest : day ≤ 31 := by
    refine monthOf_le ?_ within h
    simp only [monthLengths]
    split <;> decide
  have twelve : month < 13 := monthLt
  refine ⟨?_, by omega, by omega⟩
  rw [dayOfDate, if_pos ⟨yearPos, monthPos, by omega, dayPos, dayWithin⟩, Option.some.injEq]
  omega

/-- The characters of a time come before the sign of its offset. -/
theorem split_sign {time zone : List Char} {sign : Char}
    (clean : ∀ c ∈ time, c.isDigit = true ∨ c = ':' ∨ c = '.') (signed : sign = '+' ∨ sign = '-') :
    (time ++ sign :: zone).takeWhile beforeZone = time ∧ (time ++ sign :: zone).dropWhile beforeZone =
      sign :: zone := by
  have before : ∀ c ∈ time, beforeZone c = true := by
    intro c hc
    by_contra not_
    simp only [beforeZone, Bool.and_eq_true, decide_eq_true_eq, not_and_or, not_not] at not_
    have allowed := clean c hc
    rcases not_ with (rfl | rfl) | rfl
    all_goals
      revert allowed
      decide
  have stop : ¬ beforeZone sign = true := by
    rcases signed with rfl | rfl
    · decide
    · decide
  rw [List.takeWhile_append_of_pos before, List.dropWhile_append_of_pos before,
    List.takeWhile_cons_of_neg stop, List.dropWhile_cons_of_neg stop, List.append_nil]
  exact ⟨rfl, rfl⟩

/-- What the text of an offset reads as: less than a second is lost. -/
def rereadOffset (offset : Int) : Int := if offset.natAbs < 1000000 then 0 else offset

/-- A time and its offset read back, but for an offset of less than a second. -/
theorem parseTime_text {hour minute second micro : Nat} (h : hour < 24) (m : minute < 60) (s : second < 60)
    (f : micro < 1000000) {offset : Int} (lt : (-dayLength : Int) < offset ∧ offset < dayLength) :
    parseTime (padded 2 hour ++ ':' :: (padded 2 minute ++ ':' :: (padded 2 second ++
      (if micro = 0 then [] else '.' :: padded 6 micro) ++ offsetText offset))) =
      some (micros [hour, minute, second] micro, some (rereadOffset offset)) := by
  have clean : ∀ c ∈ padded 2 hour ++ ':' :: (padded 2 minute ++ ':' :: (padded 2 second ++
      if micro = 0 then [] else '.' :: padded 6 micro)), c.isDigit = true ∨ c = ':' ∨ c = '.' := by
    intro c hc
    simp only [List.mem_append, List.mem_cons] at hc
    rcases hc with hc | rfl | hc | rfl | hc | hc
    · exact .inl (padded_digits 2 hour c hc)
    · exact .inr (.inl rfl)
    · exact .inl (padded_digits 2 minute c hc)
    · exact .inr (.inl rfl)
    · exact .inl (padded_digits 2 second c hc)
    · split at hc
      · cases hc
      · rcases List.mem_cons.1 hc with rfl | hc
        · exact .inr (.inr rfl)
        · exact .inl (padded_digits 6 micro c hc)
  have magnitude : offset.natAbs < dayLength := by
    have := lt
    simp only [dayLength] at this ⊢
    omega
  obtain ⟨fields, zoneMicro, zone, whole, small⟩ := clock_offset magnitude
  obtain ⟨sign, signed, sign_, text⟩ : ∃ sign : Char, (sign = '+' ∨ sign = '-') ∧ (sign = '-' ↔ offset < 0) ∧
      offsetText offset = sign ::
        (padded 2 (offset.natAbs / 1000000 / 3600) ++ ':' :: (padded 2 (offset.natAbs / 1000000 / 60 % 60) ++
        if offset.natAbs % 1000000 ≠ 0
          then ':' :: (padded 2 (offset.natAbs / 1000000 % 60) ++ '.' :: padded 6 (offset.natAbs % 1000000))
        else if offset.natAbs / 1000000 % 60 ≠ 0 then ':' :: padded 2 (offset.natAbs / 1000000 % 60)
          else [])) := by
    by_cases negative : offset < 0
    · refine ⟨'-', .inr rfl, iff_of_true rfl negative, ?_⟩
      simp only [offsetText, negative, if_true, List.append_assoc, List.cons_append]
    · refine ⟨'+', .inl rfl, iff_of_false (by decide) negative, ?_⟩
      simp only [offsetText, negative, if_false, List.append_assoc, List.cons_append]
  have whole_ : padded 2 hour ++ ':' :: (padded 2 minute ++ ':' :: (padded 2 second ++
      (if micro = 0 then [] else '.' :: padded 6 micro) ++ offsetText offset)) =
        (padded 2 hour ++ ':' :: (padded 2 minute ++ ':' ::
      (padded 2 second ++ if micro = 0 then [] else '.' :: padded 6 micro))) ++ offsetText offset := by
    simp only [List.append_assoc, List.cons_append]
  have notZulu : sign ≠ 'Z' := by
    rcases signed with rfl | rfl
    · decide
    · decide
  have inDay : ([hour, minute, second].getD 0 0 < 24 ∧ [hour, minute, second].getD 1 0 < 60 ∧
      [hour, minute, second].getD 2 0 < 60) :=
    ⟨h, m, s⟩
  obtain ⟨time, rest⟩ := split_sign clean signed
  rw [whole_, text, parseTime, time, rest, clock_time (by omega) (by omega) (by omega) f]
  simp only [Option.bind_eq_bind, Option.bind_some, Bool.false_eq_true, if_false, notZulu, zone, whole,
    inDay, and_self, if_true,
    Option.some.injEq, Prod.mk.injEq, true_and, zoneOffset, small, rereadOffset]
  split
  · rfl
  · split
    · next minus =>
      have := sign_.1 minus
      omega
    · next plus =>
      have := mt sign_.2 plus
      omega

/-- A text that splits into a date and a time is the datetime of the two. -/
theorem fromisoformat_of {cs rest : List Char} {n day time : Nat} {c : Char} {offset : Option Int}
    (long : ¬ cs.length < 7) (split : dateLength cs = some n) (date : parseDate n cs = some day)
    (parts : cs.drop n = c :: rest) (clock : parseTime rest = some (time, offset)) :
    fromisoformat cs = construct day time offset := by
  rw [fromisoformat, if_neg long, split, Option.bind_eq_bind, Option.bind_some, date, Option.bind_eq_bind,
    Option.bind_some, parts]
  dsimp only
  rw [clock, Option.bind_some]

theorem rereadOffset_lt {offset : Int} (lt : -dayLength < offset ∧ offset < dayLength) :
    -dayLength < rereadOffset offset ∧ rereadOffset offset < dayLength := by
  unfold rereadOffset
  split
  · decide
  · exact lt

/-- What the text of an aware datetime reads as. -/
def AwareDatetime.reread (t : AwareDatetime) : AwareDatetime :=
  ⟨t.wall, rereadOffset t.offset, t.wall_lt, rereadOffset_lt t.offset_lt⟩

/-- A datetime whose offset is zero, or a second at least, and no other one, is what its text reads as. -/
theorem AwareDatetime.reread_eq_self {t : AwareDatetime} : t.reread = t ↔
      t.offset = 0 ∨ 1000000 ≤ t.offset.natAbs := by
  have offset : t.reread = t ↔ rereadOffset t.offset = t.offset := by
    refine ⟨congrArg AwareDatetime.offset, fun same => ?_⟩
    cases t
    simp only [reread, same]
  rw [offset, rereadOffset]
  split <;> omega

/-- An aware datetime reads back from its text, but for an offset of less than a second. -/
theorem fromisoformat_isoformat (t : AwareDatetime) :
    fromisoformat t.isoformat.toList = some (.aware t.reread) := by
  obtain ⟨month, day, hdate⟩ : ∃ month day, monthOf (monthLengths (yearOf (t.wall / dayLength))) 1
      (t.wall / dayLength - daysBefore (yearOf (t.wall / dayLength))) = (month, day) := ⟨_, _, Prod.eta _⟩
  obtain ⟨date, monthLt, dayLt⟩ := dayOfDate_wall t.wall_lt hdate
  have yearLe := (yearOf_spec (show t.wall / dayLength < 3652059 from Nat.div_lt_of_lt_mul t.wall_lt)).2.2.2
  have yearLt : yearOf (t.wall / dayLength) < 10000 := by omega
  have time : t.wall % dayLength < 86400000000 := Nat.mod_lt _ (by decide)
  obtain ⟨timeText, htime⟩ : ∃ timeText, timeText = padded 2 (t.wall % dayLength / 1000000 / 3600) ++ ':' ::
      (padded 2 (t.wall % dayLength / 1000000 / 60 % 60) ++
        ':' :: (padded 2 (t.wall % dayLength / 1000000 % 60) ++
        (if t.wall % dayLength % 1000000 = 0 then [] else '.' :: padded 6 (t.wall % dayLength % 1000000)) ++
          offsetText t.offset)) :=
    ⟨_, rfl⟩
  have text : t.isoformat.toList =
      padded 4 (yearOf (t.wall / dayLength)) ++
        '-' :: (padded 2 month ++ '-' :: (padded 2 day ++ 'T' :: timeText)) := by
    simp only [htime, AwareDatetime.isoformat, wallText, hdate, String.toList_ofList, List.append_assoc,
      List.cons_append]
  have length : ¬ t.isoformat.toList.length < 7 := by
    rw [text]
    simp only [List.length_append, List.length_cons, padded_length (by decide : 0 < 4) yearLt,
      padded_length (by decide : 0 < 2) (show month < 10 ^ 2 from monthLt)]
    omega
  have whole : t.wall / dayLength * dayLength +
    micros [t.wall % dayLength / 1000000 / 3600, t.wall % dayLength / 1000000 / 60 % 60,
      t.wall % dayLength / 1000000 % 60] (t.wall % dayLength % 1000000) = t.wall := by
    simp only [micros, List.getD_cons_zero, List.getD_cons_succ]
    simp only [dayLength] at time ⊢
    omega
  have clock := parseTime_text (show t.wall % dayLength / 1000000 / 3600 < 24 by omega)
    (show t.wall % dayLength / 1000000 / 60 % 60 < 60 by omega)
      (show t.wall % dayLength / 1000000 % 60 < 60 by omega)
    (show t.wall % dayLength % 1000000 < 1000000 by omega) t.offset_lt
  rw [← htime] at clock
  rw [text] at length ⊢
  rw [fromisoformat_of length (dateLength_text yearLt monthLt dayLt _)
    ((parseDate_text yearLt monthLt dayLt _).trans date)
    (drop_date yearLt monthLt dayLt _) clock]
  simp only [construct, whole, t.wall_lt, rereadOffset_lt t.offset_lt, and_self, dite_true,
    AwareDatetime.reread]

end SreAgent.Base.Iso
