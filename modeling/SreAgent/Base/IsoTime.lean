import Mathlib

/-!
# Instants as ISO 8601 text

`datetime.isoformat` of an instant in UTC with `Z` for its offset. An instant is a number of
microseconds since the first of January of year 1 in the proleptic Gregorian calendar. Every
instant of the years 1 to 9999 reads back from its text (`read_text`).
-/

namespace SreAgent.Base.IsoTime

/-- Leap years of the Gregorian calendar. -/
def isLeap (year : Nat) : Bool := year % 4 = 0 && (year % 100 ≠ 0 || year % 400 = 0)

/-- The lengths of the months. -/
def monthLengths (year : Nat) : List Nat :=
  [31, if isLeap year then 29 else 28, 31, 30, 31, 30, 31, 31, 30, 31, 30, 31]

/-- The days before a year. -/
def daysBefore (year : Nat) : Nat := (year - 1) * 365 + (year - 1) / 4 - (year - 1) / 100 + (year - 1) / 400

/-- The year of a day: the estimate by the mean year, or one less. -/
def yearOf (day : Nat) : Nat :=
  let year := (day * 400) / 146097 + 1
  if daysBefore (year + 1) ≤ day then year + 1 else if day < daysBefore year then year - 1 else year

/-- Month and day of month of a day of the year. -/
def monthOf : List Nat → (month day : Nat) → Nat × Nat
  | [], month, day => (month, day + 1)
  | length :: rest, month, day =>
    if day < length then (month, day + 1) else monthOf rest (month + 1) (day - length)

/-- A number with leading zeros. -/
def padded (width n : Nat) : List Char :=
  let digits := Nat.toDigits 10 n
  List.replicate (width - digits.length) '0' ++ digits

/-- `instant.isoformat().replace("+00:00", "Z")`, for an instant of UTC. -/
def text (instant : Nat) : String :=
  let day := instant / 86400000000
  let year := yearOf day
  let (month, dayOfMonth) := monthOf (monthLengths year) 1 (day - daysBefore year)
  let time := instant % 86400000000
  let second := time / 1000000
  let fraction := time % 1000000
  String.ofList (padded 4 year ++ '-' :: padded 2 month ++ '-' :: padded 2 dayOfMonth ++
    'T' :: padded 2 (second / 3600) ++
    ':' :: padded 2 (second / 60 % 60) ++ ':' :: padded 2 (second % 60) ++
    (if fraction = 0 then [] else '.' :: padded 6 fraction) ++ ['Z'])

/-- The number written in the `width` characters from `start` on. -/
def field (cs : List Char) (start width : Nat) : Nat := Nat.ofDigitChars 10 ((cs.drop start).take width) 0

/-- The instant of a text of the form that `text` writes. -/
def read (s : String) : Nat :=
  let cs := s.toList
  let year := field cs 0 4
  let day := daysBefore year + ((monthLengths year).take (field cs 5 2 - 1)).sum + (field cs 8 2 - 1)
  let second := field cs 11 2 * 3600 + field cs 14 2 * 60 + field cs 17 2
  let fraction := if (cs.drop 19).head? = some '.' then field cs 20 6 else 0
  day * 86400000000 + second * 1000000 + fraction

/-! ## Text reads back -/

/-- A number that fits is padded to the width. -/
theorem padded_length {width n : Nat} (pos : 0 < width) (h : n < 10 ^ width) :
    (padded width n).length = width := by
  have := (Nat.length_toDigits_le_iff (by decide : 1 < 10) pos).2 h
  simp only [padded, List.length_append, List.length_replicate]
  omega

/-- A padded number is read back. -/
theorem ofDigitChars_padded (width n : Nat) : Nat.ofDigitChars 10 (padded width n) 0 = n := by
  rw [padded, Nat.ofDigitChars_append, Nat.ofDigitChars_replicate_zero, Nat.mul_zero,
    Nat.ofDigitChars_ten_toDigits]

/-- The year of a day begins on or before it, and the next one after it. -/
theorem yearOf_spec {day : Nat} (h : day < 3652059) :
    daysBefore (yearOf day) ≤ day ∧ day < daysBefore (yearOf day + 1) ∧ 1 ≤ yearOf day ∧
      yearOf day ≤ 9999 := by
  unfold yearOf
  dsimp only
  generalize hk : day * 400 / 146097 = k
  split
  · next later =>
    simp only [daysBefore] at later ⊢
    omega
  · next notLater =>
    split
    · next earlier =>
      simp only [daysBefore] at notLater earlier ⊢
      omega
    · next notEarlier =>
      simp only [daysBefore] at notLater notEarlier ⊢
      omega

/-- A month counts the days before it. -/
theorem monthOf_spec {lengths : List Nat} {first day month dayOfMonth : Nat}
    (h : monthOf lengths first day = (month, dayOfMonth)) :
    first ≤ month ∧ month ≤ first + lengths.length ∧ 1 ≤ dayOfMonth ∧ dayOfMonth ≤ day + 1 ∧
      (lengths.take (month - first)).sum + (dayOfMonth - 1) = day := by
  induction lengths generalizing first day with
  | nil =>
    cases h
    simp
  | cons length rest ih =>
    rw [monthOf] at h
    split at h
    · cases h
      simp
    · next past =>
      obtain ⟨lo, hi, pos, le, sum⟩ := ih h
      have succ : month - first = (month - (first + 1)) + 1 := by omega
      simp only [List.length_cons]
      rw [succ, List.take_succ_cons, List.sum_cons]
      omega

/-- Within its lengths, no day of a month exceeds the longest. -/
theorem monthOf_le {lengths : List Nat} {n first day month dayOfMonth : Nat}
    (longest : ∀ length ∈ lengths, length ≤ n) (within : day < lengths.sum)
    (h : monthOf lengths first day = (month, dayOfMonth)) : dayOfMonth ≤ n := by
  induction lengths generalizing first day with
  | nil => cases within
  | cons length rest ih =>
    rw [List.sum_cons] at within
    rw [monthOf] at h
    split at h
    · next inside =>
      cases h
      exact Nat.le_trans inside (longest length List.mem_cons_self)
    · exact ih (fun l hl => longest l (List.mem_cons_of_mem _ hl)) (by omega) h

/-- A year is as long as its months. -/
theorem daysBefore_succ {year : Nat} (pos : 1 ≤ year) :
    daysBefore (year + 1) = daysBefore year + (monthLengths year).sum := by
  have length : (monthLengths year).sum = if isLeap year then 366 else 365 := by
    simp only [monthLengths]
    split <;> rfl
  obtain ⟨y, rfl⟩ : ∃ y, year = y + 1 := ⟨year - 1, by omega⟩
  have centuries : (y + 1) % 400 = 0 → (y + 1) % 100 = 0 := by omega
  have quarters : (y + 1) % 100 = 0 → (y + 1) % 4 = 0 := by omega
  have fewer : y / 100 ≤ y / 4 := Nat.div_le_div_left (by decide) (by decide)
  rw [length]
  simp only [isLeap, Bool.and_eq_true, Bool.or_eq_true, decide_eq_true_eq, daysBefore, Nat.add_sub_cancel,
    Nat.succ_div, Nat.dvd_iff_mod_eq_zero]
  generalize y / 4 = a at *
  generalize y / 100 = b at *
  by_cases h₄ : (y + 1) % 4 = 0
  · by_cases h₁₀₀ : (y + 1) % 100 = 0
    · by_cases h₄₀₀ : (y + 1) % 400 = 0
      · simp only [h₄, h₁₀₀, h₄₀₀, if_true, not_true_eq_false, ne_eq, or_true, and_self]
        omega
      · simp only [h₄, h₁₀₀, h₄₀₀, if_true, if_false, not_true_eq_false, ne_eq, or_self, and_false]
        omega
    · simp only [h₄, h₁₀₀, mt centuries h₁₀₀, if_true, if_false, not_false_eq_true, ne_eq, true_or, and_self]
      omega
  · have h₁₀₀ := mt quarters h₄
    simp only [h₄, h₁₀₀, mt centuries h₁₀₀, if_false, false_and]
    omega

section Fields

variable {width n : Nat} (pos : 0 < width) (small : n < 10 ^ width) (tail : List Char)

include pos small

/-- A padded number reads back where it stands. -/
theorem field_here : field (padded width n ++ tail) 0 width = n := by
  rw [field, List.drop_zero, List.take_left' (padded_length pos small), ofDigitChars_padded]

/-- Dropping past a field and its separator leaves what is behind. -/
theorem drop_past (c : Char) (start : Nat) : (padded width n ++ c :: tail).drop (width + 1 + start) =
      tail.drop start := by
  have length : (padded width n).length + 1 = width + 1 := by rw [padded_length pos small]
  rw [← List.drop_drop, ← List.singleton_append, ← List.append_assoc, List.drop_left' (by simpa using length)]

/-- A field after a number and its separator. -/
theorem field_past (c : Char) (start w : Nat) : field (padded width n ++ c :: tail) (width + 1 + start) w =
      field tail start w := by
  rw [field, drop_past pos small, field]

end Fields

/-- Every instant of the calendar reads back from its text. -/
theorem read_text {instant : Nat} (h : instant < 315537897600000000) : read (text instant) = instant := by
  obtain ⟨begins, ends, yearPos, yearLe⟩ := yearOf_spec (show instant / 86400000000 < 3652059 by omega)
  obtain ⟨month, dayOfMonth, hmonth⟩ : ∃ month dayOfMonth,
    monthOf (monthLengths (yearOf (instant / 86400000000))) 1
      (instant / 86400000000 - daysBefore (yearOf (instant / 86400000000))) = (month, dayOfMonth) :=
        ⟨_, _, rfl⟩
  obtain ⟨monthPos, monthLe, dayPos, dayLe, sum⟩ := monthOf_spec hmonth
  simp only [text, read, hmonth, String.toList_ofList]
  generalize yearOf (instant / 86400000000) = year at *
  have yearLength : (padded 4 year).length = 4 := padded_length (by decide) (by omega)
  have monthLe' : month ≤ 13 := by simpa [monthLengths] using monthLe
  have dayLe' : dayOfMonth ≤ 31 := by
    refine monthOf_le ?_ ?_ hmonth
    · simp only [monthLengths]
      split <;> decide
    · rw [daysBefore_succ yearPos] at ends
      omega
  have month₂ : month < 10 ^ 2 := by omega
  have day₂ : dayOfMonth < 10 ^ 2 := by omega
  have year₄ : year < 10 ^ 4 := by omega
  have time : instant % 86400000000 < 86400000000 := Nat.mod_lt _ (by decide)
  generalize hhour : instant % 86400000000 / 1000000 / 3600 = hour
  generalize hminute : instant % 86400000000 / 1000000 / 60 % 60 = minute
  generalize hsecond : instant % 86400000000 / 1000000 % 60 = second
  generalize hfraction : instant % 86400000000 % 1000000 = fraction
  have hour₂ : hour < 10 ^ 2 := by omega
  have minute₂ : minute < 10 ^ 2 := by omega
  have second₂ : second < 10 ^ 2 := by omega
  have fraction₆ : fraction < 10 ^ 6 := by omega
  simp only [List.append_assoc, List.cons_append]
  have two : 0 < 2 := by decide
  have four : 0 < 4 := by decide
  rw [field_here four year₄, field_past four year₄ _ _ 0, field_here two month₂, field_past four year₄ _ _ 3,
    field_past two month₂ _ _ 0, field_here two day₂, field_past four year₄ _ _ 6,
    field_past two month₂ _ _ 3,
    field_past two day₂ _ _ 0, field_here two hour₂, field_past four year₄ _ _ 9, field_past two month₂ _ _ 6,
    field_past two day₂ _ _ 3, field_past two hour₂ _ _ 0, field_here two minute₂,
    field_past four year₄ _ _ 12,
    field_past two month₂ _ _ 9, field_past two day₂ _ _ 6, field_past two hour₂ _ _ 3,
    field_past two minute₂ _ _ 0, field_here two second₂]
  have rest : ∀ tail,
    ((padded 4 year ++ '-' :: (padded 2 month ++ '-' :: (padded 2 dayOfMonth ++ 'T' :: (padded 2 hour ++
      ':' :: (padded 2 minute ++ ':' :: (padded 2 second ++ tail)))))).drop 19) = tail := by
    intro tail
    rw [drop_past four year₄ _ _ 14, drop_past two month₂ _ _ 11, drop_past two day₂ _ _ 8,
      drop_past two hour₂ _ _ 5,
      drop_past two minute₂ _ _ 2, List.drop_left' (padded_length two second₂)]
  have six : ∀ tail,
    field (padded 4 year ++ '-' :: (padded 2 month ++ '-' :: (padded 2 dayOfMonth ++ 'T' :: (padded 2 hour ++
      ':' :: (padded 2 minute ++ ':' :: (padded 2 second ++ '.' :: (padded 6 fraction ++ tail))))))) 20 6 =
        fraction := by
    intro tail
    rw [field_past four year₄ _ _ 15, field_past two month₂ _ _ 12, field_past two day₂ _ _ 9,
      field_past two hour₂ _ _ 6,
      field_past two minute₂ _ _ 3, field_past two second₂ _ _ 0, field_here (by decide) fraction₆]
  rw [rest]
  have whole : daysBefore year + ((monthLengths year).take (month - 1)).sum + (dayOfMonth - 1) =
      instant / 86400000000 := by omega
  rw [whole]
  by_cases zero : fraction = 0
  · simp only [zero, if_true, List.nil_append, List.head?_cons, Option.some.injEq, Char.reduceEq, if_false]
    omega
  · simp only [zero, if_false, List.cons_append, List.head?_cons, if_true, six]
    omega

example : text 63923043723000000 = "2026-08-23T01:02:03Z" := by decide +kernel

example : text 0 = "0001-01-01T00:00:00Z" ∧ text 315537897599999999 = "9999-12-31T23:59:59.999999Z" := by
  decide +kernel

end SreAgent.Base.IsoTime
