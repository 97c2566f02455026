import Mathlib.Logic.Function.Iterate
import Wamn.Lib.Decimal

/-!
# RFC 3339 date-times

Instants on the proleptic Gregorian calendar, their text in UTC with six fractional digits, and what
is documented of a date-time library that reads RFC 3339 texts and writes these. A text has a sign
where the year has not four digits, and is then not read back; the offsets of the first and the last
years of RFC 3339 lead there.

A reader and a writer of this module make such a library. Whole seconds since the epoch have a text
of their own.
-/

namespace Wamn.Lib.Rfc3339

open List Decimal Text

/-! ## Instants -/

/-- The year has 366 days. -/
def isLeapYear (year : ℤ) : Bool := year % 4 = 0 && (year % 100 ≠ 0 || year % 400 = 0)

/-- The days of a month. -/
def daysInMonth (year : ℤ) (month : ℕ) : ℕ :=
  if month = 2 then if isLeapYear year then 29 else 28
  else if month = 4 ∨ month = 6 ∨ month = 9 ∨ month = 11 then 30
  else 31

/-- A day of the calendar. -/
@[ext]
structure Date where
  year : ℤ
  month : ℕ
  day : ℕ
  month_mem : 1 ≤ month ∧ month ≤ 12
  day_mem : 1 ≤ day ∧ day ≤ daysInMonth year month

lemma daysInMonth_bounds (year : ℤ) (month : ℕ) :
    28 ≤ daysInMonth year month ∧ daysInMonth year month ≤ 31 := by
  unfold daysInMonth
  split_ifs
  all_goals decide

/-- The day with these numbers, if there is one. -/
def Date.fromYmd (year : ℤ) (month day : ℕ) : Option Date :=
  if h : (1 ≤ month ∧ month ≤ 12) ∧ 1 ≤ day ∧ day ≤ daysInMonth year month then
    some ⟨year, month, day, h.1, h.2⟩
  else none

/-- The next day. -/
def Date.succ (date : Date) : Date :=
  if h : date.day < daysInMonth date.year date.month then
    ⟨date.year, date.month, date.day + 1, date.month_mem, by omega, h⟩
  else if h : date.month < 12 then
    ⟨date.year, date.month + 1, 1, by omega, by
      have hdays := daysInMonth_bounds date.year (date.month + 1)
      omega⟩
  else ⟨date.year + 1, 1, 1, by decide, by decide, by
    have hdays := daysInMonth_bounds (date.year + 1) 1
    omega⟩

/-- The day before. -/
def Date.pred (date : Date) : Date :=
  if h : 1 < date.day then
    ⟨date.year, date.month, date.day - 1, date.month_mem, by
      have hday := date.day_mem
      omega⟩
  else if h : 1 < date.month then
    ⟨date.year, date.month - 1, daysInMonth date.year (date.month - 1), by
      have hmonth := date.month_mem
      omega, by
      have hdays := daysInMonth_bounds date.year (date.month - 1)
      omega⟩
  else ⟨date.year - 1, 12, 31, by decide, by decide, Nat.le_refl 31⟩

/-- A time of day. The second 60 is a leap second. -/
@[ext]
structure Time where
  hour : ℕ
  minute : ℕ
  second : ℕ
  nano : ℕ
  hour_lt : hour < 24
  minute_lt : minute < 60
  second_le : second ≤ 60
  nano_lt : nano < 1000000000

/-- The time with these numbers, if there is one. -/
def Time.fromHmsNano (hour minute second nano : ℕ) : Option Time :=
  if h : hour < 24 ∧ minute < 60 ∧ second ≤ 60 ∧ nano < 1000000000 then
    some ⟨hour, minute, second, nano, h.1, h.2.1, h.2.2.1, h.2.2.2⟩
  else none

/-- An instant in UTC. -/
@[ext]
structure DateTime where
  date : Date
  time : Time

/-- The instant of a local date and time at an offset in minutes, less than a day. -/
def DateTime.ofLocal (date : Date) (time : Time) (offset : ℤ) : DateTime where
  date :=
    let days := (60 * (time.hour : ℤ) + time.minute - offset) / 1440
    if days < 0 then date.pred else if 0 < days then date.succ else date
  time := {
    hour := ((60 * (time.hour : ℤ) + time.minute - offset) % 1440).toNat / 60
    minute := ((60 * (time.hour : ℤ) + time.minute - offset) % 1440).toNat % 60
    second := time.second
    nano := time.nano
    hour_lt := by omega
    minute_lt := by omega
    second_le := time.second_le
    nano_lt := time.nano_lt }

lemma DateTime.ofLocal_zero (date : Date) (time : Time) : ofLocal date time 0 = ⟨date, time⟩ := by
  have hhour := time.hour_lt
  have hminute := time.minute_lt
  have hdate : (ofLocal date time 0).date = date := by
    have hdays : (60 * (time.hour : ℤ) + time.minute - 0) / 1440 = 0 := by omega
    unfold ofLocal
    rw [hdays]
    rfl
  have htime : (ofLocal date time 0).time = time := by
    ext
    · show ((60 * (time.hour : ℤ) + time.minute - 0) % 1440).toNat / 60 = time.hour
      omega
    · show ((60 * (time.hour : ℤ) + time.minute - 0) % 1440).toNat % 60 = time.minute
      omega
    · rfl
    · rfl
  exact DateTime.ext hdate htime

/-! ## Texts -/

/-- The year, with a sign if it has not four digits. -/
def yearText (year : ℤ) : List Char :=
  if 0 ≤ year ∧ year ≤ 9999 then pad 4 year.toNat
  else (if year < 0 then '-' else '+') ::
    (List.replicate (4 - (Nat.toDigits 10 year.natAbs).length) '0' ++ Nat.toDigits 10 year.natAbs)

/-- The text that `%Y-%m-%dT%H:%M:%S%.6fZ` stands for. -/
def utcText (t : DateTime) : List Char :=
  yearText t.date.year ++ '-' :: (pad 2 t.date.month ++ '-' :: (pad 2 t.date.day ++
    'T' :: (pad 2 t.time.hour ++ ':' :: (pad 2 t.time.minute ++ ':' :: (pad 2 t.time.second ++
      '.' :: (pad 6 (t.time.nano / 1000) ++ ['Z']))))))

/-- The instant in whole microseconds. -/
def DateTime.truncate (t : DateTime) : DateTime where
  date := t.date
  time := { t.time with
    nano := t.time.nano / 1000 * 1000
    nano_lt := by
      have hnano := t.time.nano_lt
      omega }

lemma utcText_truncate (t : DateTime) : utcText t.truncate = utcText t := by
  have hnano : t.time.nano / 1000 * 1000 / 1000 = t.time.nano / 1000 := by omega
  simp only [utcText, DateTime.truncate, hnano]

lemma pad_append_inj {width n n' : ℕ} {rest rest' : List Char} (hn : n < 10 ^ width)
    (hn' : n' < 10 ^ width) (h : pad width n ++ rest = pad width n' ++ rest') :
    n = n' ∧ rest = rest' := by
  obtain ⟨hpad, hrest⟩ := append_inj h (by rw [length_pad, length_pad])
  refine ⟨?_, hrest⟩
  rw [← ofDigitChars_pad hn, hpad, ofDigitChars_pad hn']

/-- The year that a text spells. -/
def readYear : List Char → ℤ
  | '-' :: digits => -(Nat.ofDigitChars 10 digits 0 : ℤ)
  | '+' :: digits => Nat.ofDigitChars 10 digits 0
  | digits => Nat.ofDigitChars 10 digits 0

lemma readYear_yearText (year : ℤ) : readYear (yearText year) = year := by
  have hvalue : ∀ n k : ℕ,
      Nat.ofDigitChars 10 (List.replicate k '0' ++ Nat.toDigits 10 n) 0 = n := by
    intro n k
    rw [Nat.ofDigitChars_append, Nat.ofDigitChars_replicate_zero, Nat.mul_zero,
      Nat.ofDigitChars_ten_toDigits]
  unfold yearText
  split
  · -- A digit is no sign.
    have hplain : readYear (pad 4 year.toNat) = Nat.ofDigitChars 10 (pad 4 year.toNat) 0 := by
      have hdigits : ∀ c ∈ pad 4 year.toNat, c.isDigit = true := fun _ => isDigit_of_mem_pad
      unfold readYear
      split
      case h_3 => rfl
      all_goals
        rename_i heq
        cases hdigits _ (heq ▸ mem_cons_self)
    rw [hplain, ofDigitChars_pad (by omega)]
    omega
  · split
    · show -(_ : ℤ) = year
      rw [hvalue]
      omega
    · show (Nat.ofDigitChars 10 _ 0 : ℤ) = year
      rw [hvalue]
      omega

lemma yearText_injective {year year' : ℤ} (h : yearText year = yearText year') :
    year = year' := by
  rw [← readYear_yearText year, h, readYear_yearText]

/-- The text of an instant is that of no other instant, up to microseconds. -/
theorem utcText_eq_iff {t t' : DateTime} : utcText t = utcText t' ↔ t.truncate = t'.truncate := by
  constructor
  · intro h
    have hbounds : ∀ t : DateTime, t.date.month < 10 ^ 2 ∧ t.date.day < 10 ^ 2 ∧
        t.time.hour < 10 ^ 2 ∧ t.time.minute < 10 ^ 2 ∧ t.time.second < 10 ^ 2 ∧
        t.time.nano / 1000 < 10 ^ 6 := by
      intro t
      have hmonth := t.date.month_mem
      have hday := t.date.day_mem
      have hdays := daysInMonth_bounds t.date.year t.date.month
      have hhour := t.time.hour_lt
      have hminute := t.time.minute_lt
      have hsecond := t.time.second_le
      have hnano := t.time.nano_lt
      omega
    obtain ⟨b1, b2, b3, b4, b5, b6⟩ := hbounds t
    obtain ⟨c1, c2, c3, c4, c5, c6⟩ := hbounds t'
    obtain ⟨hyear, h⟩ := append_inj' h (by simp)
    have hyear := yearText_injective hyear
    obtain ⟨hmonth, h⟩ := pad_append_inj b1 c1 (List.cons.inj h).2
    obtain ⟨hday, h⟩ := pad_append_inj b2 c2 (List.cons.inj h).2
    obtain ⟨hhour, h⟩ := pad_append_inj b3 c3 (List.cons.inj h).2
    obtain ⟨hminute, h⟩ := pad_append_inj b4 c4 (List.cons.inj h).2
    obtain ⟨hsecond, h⟩ := pad_append_inj b5 c5 (List.cons.inj h).2
    obtain ⟨hmicros, -⟩ := pad_append_inj b6 c6 (List.cons.inj h).2
    exact DateTime.ext (Date.ext hyear hmonth hday)
      (Time.ext hhour hminute hsecond (congrArg (· * 1000) hmicros))
  · intro h
    rw [← utcText_truncate t, h, utcText_truncate]

/-! ## Libraries -/

/-- The year has four digits. -/
def DateTime.InYears (t : DateTime) : Prop := 0 ≤ t.date.year ∧ t.date.year ≤ 9999

/-- What a program uses of a date-time library. -/
structure DateTimeLibrary where
  /-- `parse_from_rfc3339`, with the instant in UTC. -/
  parse : String → Option DateTime
  /-- `format` with `%Y-%m-%dT%H:%M:%S%.6fZ`. -/
  format : DateTime → String

/-- What is documented of the library, for the instants that it reads. -/
structure DateTimeLibrary.Lawful (lib : DateTimeLibrary) : Prop where
  /-- An instant is written field by field, and a year outside of 0 to 9999 with its sign. -/
  format_eq : ∀ text t, lib.parse text = some t → lib.format t = String.ofList (utcText t)
  /-- A text in UTC whose year has four digits is read as the instant that it spells. -/
  parse_utcText : ∀ text t, lib.parse text = some t → t.InYears →
    lib.parse (String.ofList (utcText t)) = some t.truncate
  /-- A year of RFC 3339 is made of digits. -/
  parse_sign : ∀ text : String, (∀ c ∈ text.toList.head?, c.isDigit = false) →
    lib.parse text = none

section Lawful

variable {lib : DateTimeLibrary} {text text' : String} {t t' : DateTime}

/-- What the library writes for an instant it reads again up to microseconds, or not at all. -/
theorem DateTimeLibrary.Lawful.parse_format (hlib : lib.Lawful) (h : lib.parse text = some t) :
    (t.InYears → lib.parse (lib.format t) = some t.truncate) ∧
      (¬ t.InYears → lib.parse (lib.format t) = none) := by
  rw [hlib.format_eq text t h]
  refine ⟨hlib.parse_utcText text t h, fun hyears => hlib.parse_sign _ ?_⟩
  have hyear : ¬ (0 ≤ t.date.year ∧ t.date.year ≤ 9999) := hyears
  rw [String.toList_ofList, utcText, yearText, if_neg hyear]
  rintro c ⟨⟩
  split <;> rfl

lemma DateTimeLibrary.Lawful.format_eq_iff (hlib : lib.Lawful) (h : lib.parse text = some t)
    (h' : lib.parse text' = some t') : lib.format t = lib.format t' ↔ t.truncate = t'.truncate := by
  rw [hlib.format_eq text t h, hlib.format_eq text' t' h', String.ofList_inj, utcText_eq_iff]

end Lawful

/-! ## Reading -/

/-- Read this character. -/
def char (c : Char) : List Char → Option (List Char)
  | d :: rest => if d = c then some rest else none
  | [] => none

/-- Read what stands between the date and the time. -/
def separator : List Char → Option (List Char)
  | c :: rest => if c = 'T' ∨ c = 't' ∨ c = ' ' then some rest else none
  | [] => none

/-- Read a fraction of a second, if there is one, as nanoseconds. Further digits are skipped. -/
def fraction : List Char → Option (ℕ × List Char)
  | '.' :: rest =>
    let digits := (rest.takeWhile Char.isDigit).take 9
    if digits = [] then none
    else some (Nat.ofDigitChars 10 digits 0 * 10 ^ (9 - digits.length), rest.dropWhile Char.isDigit)
  | text => some (0, text)

/-- Read hours and minutes of an offset. -/
def hoursMinutes (sign : ℤ) (text : List Char) : Option (ℤ × List Char) := do
  let (hours, text) ← number 2 2 text
  let text ← char ':' text
  let (minutes, text) ← number 2 2 text
  if hours < 24 ∧ minutes < 60 then some (sign * (60 * hours + minutes), text) else none

/-- Read an offset from UTC in minutes. The typographic minus sign is one too. -/
def timezoneOffset : List Char → Option (ℤ × List Char)
  | c :: rest =>
    if c = 'Z' ∨ c = 'z' then some (0, rest)
    else if c = '+' then hoursMinutes 1 rest
    else if c = '-' ∨ c = '−' then hoursMinutes (-1) rest
    else none
  | [] => none

/-- Read a date. -/
def date (text : List Char) : Option (Date × List Char) := do
  let (year, text) ← number 4 4 text
  let text ← char '-' text
  let (month, text) ← number 2 2 text
  let text ← char '-' text
  let (day, text) ← number 2 2 text
  let date ← Date.fromYmd year month day
  return (date, text)

/-- Read a time of day. -/
def time (text : List Char) : Option (Time × List Char) := do
  let (hour, text) ← number 2 2 text
  let text ← char ':' text
  let (minute, text) ← number 2 2 text
  let text ← char ':' text
  let (second, text) ← number 2 2 text
  let (nano, text) ← fraction text
  let time ← Time.fromHmsNano hour minute second nano
  return (time, text)

/-- `parse_from_rfc3339`: the instant of an RFC 3339 text. -/
def parse (text : List Char) : Option DateTime := do
  let (date, text) ← date text
  let text ← separator text
  let (time, text) ← time text
  let (offset, text) ← timezoneOffset text
  if text = [] then some (.ofLocal date time offset) else none

lemma number_two {n : ℕ} (hn : n < 100) {c : Char} (hc : c.isDigit = false) (rest : List Char) :
    number 2 2 (pad 2 n ++ c :: rest) = some (n, c :: rest) := by
  refine number_pad hn (Nat.le_refl 2) (Nat.le_refl 2) ?_
  rintro d ⟨⟩
  exact hc

lemma date_text (d : Date) (hyear : 0 ≤ d.year ∧ d.year ≤ 9999) {c : Char}
    (hc : c.isDigit = false)
    (rest : List Char) :
    date (yearText d.year ++ '-' :: (pad 2 d.month ++ '-' :: (pad 2 d.day ++ c :: rest))) =
      some (d, c :: rest) := by
  have hmonth := d.month_mem
  have hday := d.day_mem
  have hdays := daysInMonth_bounds d.year d.month
  have hfour : ∀ rest, number 4 4 (yearText d.year ++ '-' :: rest) =
      some (d.year.toNat, '-' :: rest) := by
    intro rest
    rw [yearText, if_pos hyear]
    refine number_pad (by omega) (Nat.le_refl 4) (Nat.le_refl 4) ?_
    rintro c ⟨⟩
    rfl
  have hdate : Date.fromYmd (d.year.toNat : ℤ) d.month d.day = some d := by
    have hcast : (d.year.toNat : ℤ) = d.year := by omega
    rw [hcast, Date.fromYmd, dif_pos ⟨hmonth, hday⟩]
  unfold date
  simp only [hfour, number_two (show d.month < 100 by omega) (show '-'.isDigit = false from rfl),
    number_two (show d.day < 100 by omega) hc, char, if_true, Option.bind_eq_bind, Option.bind_some,
    hdate]
  rfl

lemma fraction_text {micros : ℕ} (hmicros : micros < 1000000) (rest : List Char) :
    fraction ('.' :: (pad 6 micros ++ 'Z' :: rest)) = some (micros * 1000, 'Z' :: rest) := by
  have hdigits : ∀ c ∈ pad 6 micros, c.isDigit = true := fun _ hc => isDigit_of_mem_pad hc
  have hrest : ∀ c ∈ ('Z' :: rest).head?, c.isDigit = false := by
    rintro c ⟨⟩
    rfl
  have htake : ((pad 6 micros ++ 'Z' :: rest).takeWhile Char.isDigit).take 9 = pad 6 micros := by
    rw [takeWhile_run hdigits hrest, take_of_length_le (by simp)]
  have hne : pad 6 micros ≠ [] := by
    intro hnil
    have hlength := length_pad 6 micros
    rw [hnil] at hlength
    cases hlength
  have hscale : micros * 10 ^ (9 - 6) = micros * 1000 := rfl
  rw [fraction, htake, if_neg hne, ← hscale, ofDigitChars_pad hmicros, length_pad,
    dropWhile_run hdigits hrest]

lemma time_text (t : DateTime) (rest : List Char) :
    time (pad 2 t.time.hour ++ ':' :: (pad 2 t.time.minute ++ ':' :: (pad 2 t.time.second ++
      '.' :: (pad 6 (t.time.nano / 1000) ++ 'Z' :: rest)))) =
      some (t.truncate.time, 'Z' :: rest) := by
  have hhour := t.time.hour_lt
  have hminute := t.time.minute_lt
  have hsecond := t.time.second_le
  have hnano := t.time.nano_lt
  have htime :
      Time.fromHmsNano t.time.hour t.time.minute t.time.second (t.time.nano / 1000 * 1000) =
      some t.truncate.time := by
    rw [Time.fromHmsNano, dif_pos ⟨hhour, hminute, hsecond, by omega⟩]
    rfl
  unfold time
  simp only [number_two (show t.time.hour < 100 by omega) (show ':'.isDigit = false from rfl),
    number_two (show t.time.minute < 100 by omega) (show ':'.isDigit = false from rfl),
    number_two (show t.time.second < 100 by omega) (show '.'.isDigit = false from rfl),
    fraction_text (show t.time.nano / 1000 < 1000000 by omega), char, if_true, Option.bind_eq_bind,
    Option.bind_some, htime]
  rfl

/-- The text of an instant in the years 0 to 9999 is read back, up to microseconds. -/
theorem parse_utcText (t : DateTime) (hyear : t.InYears) :
    parse (utcText t) = some t.truncate := by
  unfold parse utcText
  rw [date_text t.date hyear rfl]
  simp only [Option.bind_eq_bind, Option.bind_some, separator, true_or, if_true, time_text,
    timezoneOffset, DateTime.ofLocal_zero]
  rfl

lemma parse_sign {text : List Char} (h : ∀ c ∈ text.head?, c.isDigit = false) :
    parse text = none := by
  have hnumber : number 4 4 text = none := by
    have hrun : text.takeWhile Char.isDigit = [] := by
      cases text with
      | nil => rfl
      | cons c rest => simp [h c rfl]
    simp [number, hrun]
  unfold parse date
  rw [hnumber]
  rfl

/-- The reader and the writer of this module. -/
def calendar : DateTimeLibrary :=
  ⟨fun text => parse text.toList, fun t => String.ofList (utcText t)⟩

lemma calendar_lawful : calendar.Lawful where
  format_eq _ _ _ := rfl
  parse_utcText _ t _ hyears := by
    show parse (String.ofList (utcText t)).toList = _
    rw [String.toList_ofList, parse_utcText t hyears]
  parse_sign _ := parse_sign

/-! ## Seconds since the epoch -/

/-- The days of a year before a month, and 31 more. -/
def daysBefore (year : ℤ) : ℕ → ℕ
  | 0 => 0
  | month + 1 => daysBefore year month + daysInMonth year month

/-- The number of a day, counted from before the first year. -/
def dayNumber (year : ℤ) (month day : ℕ) : ℤ :=
  365 * (year - 1) + (year - 1) / 4 - (year - 1) / 100 + (year - 1) / 400 +
    daysBefore year month + day

lemma dayNumber_newYear (year : ℤ) : dayNumber (year + 1) 1 1 = dayNumber year 12 31 + 1 := by
  have hdays : daysBefore year 12 = 337 + if isLeapYear year then 29 else 28 := by
    simp [daysBefore, daysInMonth]
    omega
  have hfirst : daysBefore (year + 1) 1 = 31 := by simp [daysBefore, daysInMonth]
  simp only [dayNumber, hdays, hfirst, isLeapYear, Bool.and_eq_true, Bool.or_eq_true,
    decide_eq_true_eq]
  split_ifs
  all_goals omega

/-- The number of the day. -/
def Date.number (d : Date) : ℤ := dayNumber d.year d.month d.day

lemma Date.number_succ (d : Date) : d.succ.number = d.number + 1 := by
  have hday := d.day_mem
  unfold succ
  split
  · simp only [number, dayNumber]
    omega
  · split
    · simp only [number, dayNumber, daysBefore]
      omega
    · have hmonth : d.month = 12 := by
        have hle := d.month_mem.2
        omega
      have hlast : d.day = 31 := by
        have hdays : daysInMonth d.year d.month = 31 := by rw [hmonth]; rfl
        omega
      simp only [number, hmonth, hlast, dayNumber_newYear]

lemma Date.number_pred (d : Date) : d.pred.number = d.number - 1 := by
  have hday := d.day_mem
  unfold pred
  split
  · simp only [number, dayNumber]
    omega
  · have hfirst : d.day = 1 := by omega
    split
    · obtain ⟨month, hmonth⟩ : ∃ month, d.month = month + 1 :=
        Nat.exists_eq_add_one.2 (by omega)
      simp only [number, dayNumber, hmonth, hfirst, Nat.add_sub_cancel, daysBefore]
      omega
    · have hmonth : d.month = 1 := by
        have hle := d.month_mem.1
        omega
      have hyear := dayNumber_newYear (d.year - 1)
      simp only [number, hmonth, hfirst]
      rw [Int.sub_add_cancel] at hyear
      omega

/-- The first of January 1970. -/
def epoch : Date := ⟨1970, 1, 1, by decide, by decide⟩

/-- The date so many days after the epoch. -/
def Date.ofDays : ℤ → Date
  | .ofNat n => Date.succ^[n] epoch
  | .negSucc n => Date.pred^[n + 1] epoch

lemma Date.number_ofDays (days : ℤ) : (ofDays days).number = epoch.number + days := by
  have hsucc : ∀ n : ℕ, (Date.succ^[n] epoch).number = epoch.number + n := by
    intro n
    induction n with
    | zero => simp
    | succ n ih =>
      rw [Function.iterate_succ_apply', number_succ, ih]
      omega
  have hpred : ∀ n : ℕ, (Date.pred^[n] epoch).number = epoch.number - n := by
    intro n
    induction n with
    | zero => simp
    | succ n ih =>
      rw [Function.iterate_succ_apply', number_pred, ih]
      omega
  cases days with
  | ofNat n => exact hsucc n
  | negSucc n =>
    have hnumber := hpred (n + 1)
    rw [ofDays, hnumber]
    omega

/-- `to_rfc3339_opts` in whole seconds: the text of an instant by its seconds since the epoch. -/
def secondsText (seconds : ℤ) : List Char :=
  let date := Date.ofDays (seconds / 86400)
  let time := (seconds % 86400).toNat
  yearText date.year ++ '-' :: (pad 2 date.month ++ '-' :: (pad 2 date.day ++
    'T' :: (pad 2 (time / 3600) ++ ':' :: (pad 2 (time / 60 % 60) ++ ':' :: (pad 2 (time % 60) ++
      ['Z'])))))

/-- The seconds since the epoch that such a text spells. Only the year has not a fixed width. -/
def readSeconds (text : List Char) : ℤ :=
  let tail := text.drop (text.length - 16)
  let field := fun i => Nat.ofDigitChars 10 ((tail.drop i).take 2) 0
  86400 * (dayNumber (readYear (text.take (text.length - 16))) (field 1) (field 4) - epoch.number) +
    (3600 * field 7 + 60 * field 10 + field 13 : ℕ)

lemma readSeconds_secondsText (seconds : ℤ) : readSeconds (secondsText seconds) = seconds := by
  have hnumber := Date.number_ofDays (seconds / 86400)
  have hmonth := (Date.ofDays (seconds / 86400)).month_mem
  have hday := (Date.ofDays (seconds / 86400)).day_mem
  have hdays := daysInMonth_bounds (Date.ofDays (seconds / 86400)).year
    (Date.ofDays (seconds / 86400)).month
  unfold secondsText readSeconds
  generalize Date.ofDays (seconds / 86400) = date at *
  have htime : ((seconds % 86400).toNat : ℤ) = seconds % 86400 := by omega
  generalize (seconds % 86400).toNat = time at *
  have htail : ∀ tail : List Char, tail.length = 16 →
      (yearText date.year ++ tail).length - 16 = (yearText date.year).length := by
    intro tail hlength
    rw [length_append, hlength, Nat.add_sub_cancel]
  simp only
  rw [htail _ (by simp), take_left, drop_left, readYear_yearText]
  show 86400 * (dayNumber date.year (Nat.ofDigitChars 10 (pad 2 date.month) 0)
      (Nat.ofDigitChars 10 (pad 2 date.day) 0) - epoch.number) +
    ((3600 * Nat.ofDigitChars 10 (pad 2 (time / 3600)) 0 +
      60 * Nat.ofDigitChars 10 (pad 2 (time / 60 % 60)) 0 +
      Nat.ofDigitChars 10 (pad 2 (time % 60)) 0 : ℕ) : ℤ) = seconds
  rw [ofDigitChars_pad (by omega), ofDigitChars_pad (by omega), ofDigitChars_pad (by omega),
    ofDigitChars_pad (by omega), ofDigitChars_pad (by omega)]
  rw [Date.number] at hnumber
  omega

lemma secondsText_injective : Function.Injective secondsText :=
  Function.LeftInverse.injective readSeconds_secondsText

lemma count_colon_pad (width n : ℕ) : (pad width n).count ':' = 0 := by
  refine count_eq_zero_of_not_mem fun hmem => ?_
  cases isDigit_of_mem_pad hmem

lemma count_colon_secondsText (seconds : ℤ) : (secondsText seconds).count ':' = 2 := by
  have hyear : ∀ year, (yearText year).count ':' = 0 := by
    intro year
    unfold yearText
    split
    · exact count_colon_pad _ _
    · have hdigits : (Nat.toDigits 10 year.natAbs).count ':' = 0 := by
        refine count_eq_zero_of_not_mem fun hmem => ?_
        cases isDigit_of_mem_toDigits hmem
      by_cases hneg : year < 0 <;> simp [hneg, hdigits, count_replicate]
  simp [secondsText, hyear, count_colon_pad]

end Wamn.Lib.Rfc3339
