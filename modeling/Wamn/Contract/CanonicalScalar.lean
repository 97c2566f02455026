import Mathlib.Algebra.Order.Field.Rat
import Wamn.Lib.Rfc3339

/-!
# Canonical scalars

The one spelling of a time and of a plain decimal. A time whose offset leads out of the years 0 to
9999 is respelled to a text that is not RFC 3339; every other canonical spelling is its own.
-/

namespace Wamn.Contract

open Nat List Lib Lib.Decimal Lib.Rfc3339 Lib.Text

variable (chrono : DateTimeLibrary) (value : String)

/-- A time in UTC with six fractional digits, by the library `chrono`. -/
def formatTimestamptz (value : DateTime) : String := chrono.format value

/-- The text of a time in UTC with six fractional digits. -/
def canonicalTimestamptz : Option String :=
  (chrono.parse value).map (formatTimestamptz chrono)

def splitSign : List Char → List Char × List Char
  | '-' :: unsigned => (['-'], unsigned)
  | value => ([], value)

/-- What stands before the first point and after it. -/
def splitPoint (unsigned : List Char) : List Char × List Char :=
  (splitOnce '.' unsigned).getD (unsigned, [])

/-- The digits before the point without leading zeros, at least one. -/
def trimWhole (whole : List Char) : List Char :=
  match whole.dropWhile (· = '0') with
  | [] => ['0']
  | trimmed => trimmed

/-- A decimal, with a point only if it has a fraction. -/
def spellDecimal (sign whole fraction : List Char) : List Char :=
  sign ++ (whole ++ if fraction = [] then [] else '.' :: fraction)

/-- A plain decimal with its scale. -/
def canonicalNumeric : Option String :=
  let signed := splitSign value.toList
  let digits := splitPoint signed.2
  if digits.1.all Char.isDigit = false ∨ digits.2.all Char.isDigit = false ∨
      digits.1.length + digits.2.length = 0 then none
  else some (String.ofList (spellDecimal signed.1 (trimWhole digits.1) digits.2))

/-! ## Canonical spellings -/

/-- The time has a year of four digits in UTC. -/
def InYears : Prop :=
  ∀ t, chrono.parse value = some t → t.InYears

lemma canonicalTimestamptz_canonical {chrono : DateTimeLibrary} (hchrono : chrono.Lawful)
    {value canonical : String} (h : canonicalTimestamptz chrono value = some canonical) :
    (InYears chrono value → canonicalTimestamptz chrono canonical = some canonical) ∧
      (¬ InYears chrono value → canonicalTimestamptz chrono canonical = none) := by
  obtain ⟨t, hparse, rfl⟩ := Option.map_eq_some_iff.1 h
  obtain ⟨hagain, hrefused⟩ := hchrono.parse_format hparse
  rw [canonicalTimestamptz, formatTimestamptz]
  constructor
  · intro hyears
    have hread := hagain (hyears t hparse)
    rw [hread, Option.map_some, formatTimestamptz, (hchrono.format_eq_iff hread hparse).2]
    exact utcText_eq_iff.1 (utcText_truncate t)
  · intro hyears
    rw [hrefused fun hyear => hyears fun t' ht' => Option.mem_unique hparse ht' ▸ hyear]
    rfl

section Decimal

variable {sign whole : List Char}

lemma trimWhole_digits (h : whole.all Char.isDigit = true) :
    (trimWhole whole).all Char.isDigit = true ∧ trimWhole whole ≠ [] := by
  unfold trimWhole
  split
  · exact ⟨rfl, by simp⟩
  · rename_i hne
    refine ⟨all_eq_true.2 fun c hc => ?_, hne⟩
    exact all_eq_true.1 h c ((dropWhile_suffix _).mem hc)

lemma trimWhole_trimWhole (whole : List Char) :
    trimWhole (trimWhole whole) = trimWhole whole := by
  cases hdrop : whole.dropWhile (· = '0') with
  | nil => simp [trimWhole, hdrop]
  | cons c rest =>
    have hc : ¬ (c = '0') := by
      have hhead := head_dropWhile_not (fun c => decide (c = '0')) (l := whole) (by simp [hdrop])
      simpa [hdrop] using hhead
    simp [trimWhole, hdrop, hc]

lemma split_spellDecimal (hsign : sign = [] ∨ sign = ['-'])
    (hwhole : whole.all Char.isDigit = true)
    (hne : whole ≠ []) (fraction : List Char) :
    splitSign (spellDecimal sign whole fraction) = (sign, spellDecimal [] whole fraction) ∧
      splitPoint (spellDecimal [] whole fraction) = (whole, fraction) := by
  have hdigit := all_eq_true.1 hwhole
  constructor
  · rcases hsign with rfl | rfl
    · obtain ⟨c, rest, rfl⟩ := exists_cons_of_ne_nil hne
      have hc : c ≠ '-' := by
        rintro rfl
        exact absurd (hdigit '-' mem_cons_self) (by decide)
      show splitSign (c :: _) = ([], c :: _)
      unfold splitSign
      split
      · rename_i heq
        exact absurd (List.cons.inj heq).1 hc
      · rfl
    · rfl
  · have hpoint : '.' ∉ whole := fun hmem => absurd (hdigit '.' hmem) (by decide)
    rw [spellDecimal, nil_append, splitPoint]
    split
    · rename_i hfraction
      rw [append_nil, splitOnce_eq_none.2 hpoint, hfraction]
      rfl
    · rw [splitOnce_eq_some.2 ⟨rfl, hpoint⟩]
      rfl

/-- What the parts of an accepted decimal are, and its canonical spelling. -/
structure Parts (value canonical : String) (sign unsigned whole fraction : List Char) : Prop where
  sign_eq : sign = [] ∨ sign = ['-']
  split : splitSign value.toList = (sign, unsigned)
  point : splitPoint unsigned = (whole, fraction)
  whole_digits : whole.all Char.isDigit = true
  fraction_digits : fraction.all Char.isDigit = true
  canonical_eq : canonical = String.ofList (spellDecimal sign (trimWhole whole) fraction)

/-- What a decimal denotes: whether it has a minus sign, its magnitude and its scale. -/
def denoted (value : String) : Bool × ℚ × ℕ :=
  let signed := splitSign value.toList
  let digits := splitPoint signed.2
  (signed.1 = ['-'],
    (Nat.ofDigitChars 10 (digits.1 ++ digits.2) 0 : ℚ) / 10 ^ digits.2.length, digits.2.length)

lemma trimWhole_eq_toDigits (h : whole.all Char.isDigit = true) :
    trimWhole whole = Nat.toDigits 10 (Nat.ofDigitChars 10 whole 0) := by
  have hzeros : Nat.ofDigitChars 10 (whole.takeWhile (· = '0')) 0 = 0 := by
    have hall : ∀ c ∈ whole.takeWhile (· = '0'), c = '0' := fun c hc =>
      of_decide_eq_true (all_eq_true.1 all_takeWhile c hc)
    rw [eq_replicate_of_mem hall, ofDigitChars_replicate_zero, mul_zero]
  have hvalue : Nat.ofDigitChars 10 whole 0 =
      Nat.ofDigitChars 10 (whole.dropWhile (· = '0')) 0 := by
    conv_lhs => rw [← takeWhile_append_dropWhile (p := (· = '0')) (l := whole)]
    rw [ofDigitChars_append, hzeros]
  rw [hvalue, trimWhole]
  split
  · rename_i hnil
    rw [hnil]
    rfl
  · rename_i hne
    refine (toDigits_ofDigitChars (fun c hc => ?_) hne (.inr fun hhead => ?_)).symm
    · exact all_eq_true.1 h c ((dropWhile_suffix _).mem hc)
    · have hnot := head_dropWhile_not (fun c => decide (c = '0')) (l := whole) hne
      rw [(head_eq_iff_head?_eq_some hne).2 hhead] at hnot
      cases hnot

variable {value value' canonical canonical' : String}
  (h : canonicalNumeric value = some canonical)

include h

lemma parts_of_canonicalNumeric :
    ∃ sign unsigned whole fraction, Parts value canonical sign unsigned whole fraction := by
  have hsign : (splitSign value.toList).1 = [] ∨ (splitSign value.toList).1 = ['-'] := by
    unfold splitSign
    split
    · exact .inr rfl
    · exact .inl rfl
  unfold canonicalNumeric at h
  simp only at h
  split at h
  · cases h
  · rename_i hvalid
    simp only [not_or, Bool.not_eq_false] at hvalid
    exact ⟨_, _, _, _, hsign, rfl, rfl, hvalid.1, hvalid.2.1, (Option.some.inj h).symm⟩

lemma canonicalNumeric_canonical : canonicalNumeric canonical = some canonical := by
  obtain ⟨sign, unsigned, whole, fraction, parts⟩ := parts_of_canonicalNumeric h
  obtain ⟨hdigits, hne⟩ := trimWhole_digits parts.whole_digits
  obtain ⟨hagain, hpoint⟩ := split_spellDecimal parts.sign_eq hdigits hne fraction
  have hlength : 0 < (trimWhole whole).length := length_pos_iff.2 hne
  have hvalid : ¬ ((trimWhole whole).all Char.isDigit = false ∨
      fraction.all Char.isDigit = false ∨ (trimWhole whole).length + fraction.length = 0) := by
    rw [hdigits, parts.fraction_digits]
    simp only [Bool.true_eq_false, false_or]
    omega
  rw [parts.canonical_eq]
  unfold canonicalNumeric
  simp only [String.toList_ofList, hagain, hpoint]
  rw [if_neg hvalid, trimWhole_trimWhole]

/-- Two decimals have one canonical spelling exactly if they have the same sign, magnitude and
scale. -/
theorem canonicalNumeric_eq_iff (h' : canonicalNumeric value' = some canonical') :
    canonical = canonical' ↔ denoted value = denoted value' := by
  obtain ⟨sign, unsigned, whole, fraction, parts⟩ := parts_of_canonicalNumeric h
  obtain ⟨sign', unsigned', whole', fraction', parts'⟩ := parts_of_canonicalNumeric h'
  have hfraction := all_eq_true.1 parts.fraction_digits
  have hfraction' := all_eq_true.1 parts'.fraction_digits
  have htrim := trimWhole_eq_toDigits parts.whole_digits
  have htrim' := trimWhole_eq_toDigits parts'.whole_digits
  simp only [denoted, parts.split, parts'.split, parts.point, parts'.point, Prod.mk.injEq,
    decide_eq_decide, ofDigitChars_append]
  constructor
  · intro heq
    rw [parts.canonical_eq, parts'.canonical_eq, String.ofList_inj] at heq
    obtain ⟨hdigits, hne⟩ := trimWhole_digits parts.whole_digits
    obtain ⟨hdigits', hne'⟩ := trimWhole_digits parts'.whole_digits
    obtain ⟨hsign, hpoint⟩ := split_spellDecimal parts.sign_eq hdigits hne fraction
    obtain ⟨hsign', hpoint'⟩ := split_spellDecimal parts'.sign_eq hdigits' hne' fraction'
    rw [heq, hsign'] at hsign
    obtain ⟨rfl, hunsigned⟩ := Prod.mk.inj hsign
    rw [← hunsigned, hpoint'] at hpoint
    obtain ⟨hwhole, rfl⟩ := Prod.mk.inj hpoint
    have hvalue : Nat.ofDigitChars 10 whole 0 = Nat.ofDigitChars 10 whole' 0 := by
      rw [← ofDigitChars_ten_toDigits (n := Nat.ofDigitChars 10 whole 0), ← htrim, ← hwhole, htrim',
        ofDigitChars_ten_toDigits]
    simp [hvalue]
  · rintro ⟨hsign, hvalue, hlength⟩
    have hsame : sign = sign' := by
      rcases parts.sign_eq with rfl | rfl <;> rcases parts'.sign_eq with rfl | rfl <;> simp_all
    have hpow : (10 : ℚ) ^ fraction'.length ≠ 0 := pow_ne_zero _ (by decide)
    have hlt := ofDigitChars_lt hfraction
    have hlt' := ofDigitChars_lt hfraction'
    rw [hlength] at hlt
    rw [hlength, div_left_inj' hpow, Nat.cast_inj, Nat.ofDigitChars_eq_ofDigitChars_zero, hlength,
      Nat.ofDigitChars_eq_ofDigitChars_zero (l := fraction')] at hvalue
    have hwhole : Nat.ofDigitChars 10 whole 0 = Nat.ofDigitChars 10 whole' 0 := by
      have hpos : 0 < 10 ^ fraction'.length := Nat.pow_pos (by decide)
      have hquotient := congrArg (· / 10 ^ fraction'.length) hvalue
      simpa only [mul_add_div hpos, div_eq_of_lt hlt, div_eq_of_lt hlt', add_zero] using
        hquotient
    rw [hwhole] at hvalue
    have hsame' : fraction = fraction' := by
      rw [← pad_ofDigitChars hfraction, add_left_cancel hvalue, hlength,
        pad_ofDigitChars hfraction']
    rw [parts.canonical_eq, parts'.canonical_eq, hsame, hsame', htrim, htrim', hwhole]

end Decimal

/-- Canonical scalars are canonical, except that a time is accepted again exactly if its year in UTC
has four digits. -/
theorem canonical_scalars (chrono : DateTimeLibrary) (hchrono : chrono.Lawful)
    (value value' : String) :
    (∀ canonical, canonicalNumeric value = some canonical →
      canonicalNumeric canonical = some canonical) ∧
    (∀ canonical canonical', canonicalNumeric value = some canonical →
      canonicalNumeric value' = some canonical' →
      (canonical = canonical' ↔ denoted value = denoted value')) ∧
    (∀ t t', chrono.parse value = some t → chrono.parse value' = some t' →
      (canonicalTimestamptz chrono value = canonicalTimestamptz chrono value' ↔
        t.truncate = t'.truncate)) ∧
    ∀ canonical, canonicalTimestamptz chrono value = some canonical →
      (canonicalTimestamptz chrono canonical = some canonical ↔ InYears chrono value) := by
  refine ⟨fun _ => canonicalNumeric_canonical, fun _ _ => canonicalNumeric_eq_iff, ?_, ?_⟩
  · intro t t' ht ht'
    rw [canonicalTimestamptz, canonicalTimestamptz, ht, ht', Option.map_some, Option.map_some,
      Option.some_inj, formatTimestamptz, formatTimestamptz, hchrono.format_eq_iff ht ht']
  · intro canonical h
    obtain ⟨hagain, hrefused⟩ := canonicalTimestamptz_canonical hchrono h
    refine ⟨fun hcanonical => ?_, hagain⟩
    by_contra hyears
    rw [hrefused hyears] at hcanonical
    cases hcanonical

namespace Sample

/-- Spellings of a time and of a decimal, and their canonical spellings. -/
theorem canonical_evening :
    canonicalTimestamptz calendar "2026-09-05T02:00:00+02:00" = some "2026-09-05T00:00:00.000000Z" ∧
    canonicalTimestamptz calendar "2026-09-05T00:00:00.000000Z" =
      some "2026-09-05T00:00:00.000000Z" ∧
    canonicalNumeric "-01.50" = some "-1.50" ∧ canonicalNumeric "-1.50" = some "-1.50" := by
  have htime : canonicalTimestamptz calendar "2026-09-05T02:00:00+02:00" =
      some "2026-09-05T00:00:00.000000Z" := by decide +kernel
  have hdecimal : canonicalNumeric "-01.50" = some "-1.50" := by decide +kernel
  obtain ⟨-, -, -, htimes⟩ :=
    canonical_scalars calendar calendar_lawful "2026-09-05T02:00:00+02:00" ""
  obtain ⟨hagain, -⟩ := canonical_scalars calendar calendar_lawful "-01.50" ""
  refine ⟨htime, (htimes _ htime).2 ?_, hdecimal, hagain _ hdecimal⟩
  unfold InYears DateTime.InYears
  decide +kernel

/-- The last hour of the year 9999 west of Greenwich has a canonical spelling that is refused. -/
theorem canonical_newYear :
    calendar.Lawful ∧
      canonicalTimestamptz calendar "9999-12-31T23:30:00-01:00" =
        some "+10000-01-01T00:30:00.000000Z" ∧
      canonicalTimestamptz calendar "+10000-01-01T00:30:00.000000Z" = none :=
  ⟨calendar_lawful, by decide +kernel, by decide +kernel⟩

end Sample

end Wamn.Contract
