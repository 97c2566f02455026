import Mathlib.Algebra.Group.Nat.Defs
import Mathlib.Data.Int.Notation
import Mathlib.Data.List.Induction
import Mathlib.Data.Nat.Notation
import Wamn.Lib.Text

/-!
# Decimal numbers in texts

Numbers as a program reads and writes them: digits with an optional sign, digits padded to a fixed
width, and a run of digits at the start of a longer text.
-/

namespace Wamn.Lib.Decimal

open Nat List Text

/-- The number of some digits. -/
def parseDigits (digits : List Char) : Option ℕ :=
  if digits ≠ [] ∧ digits.all Char.isDigit then
    some (digits.foldl (fun n c => 10 * n + (c.toNat - '0'.toNat)) 0)
  else none

/-- `parse::<i64>`: an optional sign and digits, in range. -/
def parseI64 (text : String) : Option ℤ :=
  let value : Option ℤ := match text.toList with
    | '-' :: digits => (parseDigits digits).map fun n => -(n : ℤ)
    | '+' :: digits => (parseDigits digits).map fun n => (n : ℤ)
    | digits => (parseDigits digits).map fun n => (n : ℤ)
  value.filter fun n => -9223372036854775808 ≤ n ∧ n ≤ 9223372036854775807

lemma isDigit_of_mem_toDigits {n : ℕ} {c : Char} (hc : c ∈ Nat.toDigits 10 n) :
    c.isDigit = true :=
  Nat.isDigit_of_mem_toDigits (by decide) (by decide) hc

lemma toDigits_eq_cons (n : ℕ) :
    ∃ c digits, Nat.toDigits 10 n = c :: digits ∧ c.isDigit = true := by
  obtain ⟨c, digits, hdigits⟩ :=
    exists_cons_of_ne_nil (toDigits_ne_nil (n := n) (b := 10))
  exact ⟨c, digits, hdigits, isDigit_of_mem_toDigits (hdigits ▸ mem_cons_self)⟩

lemma repr_injective : Function.Injective Nat.repr := by
  intro n m h
  rw [← ofDigitChars_ten_toDigits (n := n), ← toList_repr, h, toList_repr,
    ofDigitChars_ten_toDigits]

lemma intRepr_injective : Function.Injective Int.repr := by
  -- Only the text of a negative number has a minus sign.
  have hsign : ∀ n m : ℕ, n.repr ≠ "-" ++ m.repr := by
    intro n m h
    have hminus : '-' ∈ n.repr.toList := by simp [h]
    rw [toList_repr] at hminus
    cases isDigit_of_mem_toDigits hminus
  rintro (n | n) (m | m) h
  · exact congrArg Int.ofNat (repr_injective h)
  · exact absurd h (hsign n (m + 1))
  · exact absurd h.symm (hsign m (n + 1))
  · have hlist := congrArg String.toList h
    simp only [Int.repr, String.toList_append, append_cancel_left_eq] at hlist
    exact congrArg Int.negSucc (Nat.succ.inj (repr_injective (String.toList_inj.1 hlist)))

lemma parseDigits_toDigits (n : ℕ) : parseDigits (Nat.toDigits 10 n) = some n := by
  have hdigits : (Nat.toDigits 10 n).all Char.isDigit = true :=
    all_eq_true.2 fun c hc => isDigit_of_mem_toDigits hc
  unfold parseDigits
  rw [if_pos ⟨toDigits_ne_nil, hdigits⟩, ← ofDigitChars_eq_foldl,
    ofDigitChars_ten_toDigits]

lemma parseI64_of_head {text : String} {c : Char} {digits : List Char}
    (htext : text.toList = c :: digits) (hc : c.isDigit = true) :
    parseI64 text = ((parseDigits (c :: digits)).map fun n => (n : ℤ)).filter fun n =>
      -9223372036854775808 ≤ n ∧ n ≤ 9223372036854775807 := by
  unfold parseI64
  rw [htext]
  split
  · rename_i heq
    obtain ⟨rfl, -⟩ := List.cons.inj heq
    cases hc
  · rename_i heq
    obtain ⟨rfl, -⟩ := List.cons.inj heq
    cases hc
  · rfl

lemma parseI64_toString (n : ℤ) : parseI64 (toString n) =
    (some n).filter fun n => -9223372036854775808 ≤ n ∧ n ≤ 9223372036854775807 := by
  cases n with
  | ofNat n =>
    obtain ⟨c, digits, hdigits, hc⟩ := toDigits_eq_cons n
    have hlist : (toString (Int.ofNat n)).toList = Nat.toDigits 10 n := toList_repr
    rw [parseI64_of_head (hlist.trans hdigits) hc, ← hdigits, parseDigits_toDigits]
    rfl
  | negSucc n =>
    have hlist : (toString (Int.negSucc n)).toList = '-' :: Nat.toDigits 10 (n + 1) := by
      show ("-" ++ (n + 1).repr).toList = _
      rw [String.toList_append, toList_repr]
      rfl
    unfold parseI64
    rw [hlist]
    simp only [parseDigits_toDigits]
    rfl

lemma eq_of_parseI64_toString {n m : ℤ} (h : parseI64 (toString n) = some m) : m = n := by
  rw [parseI64_toString, Option.filter_eq_some_iff] at h
  exact (Option.some.inj h.1).symm

/-! ## Runs of digits -/

section Run

variable {digits rest : List Char}

/-- The last digits of a number, in so many characters. -/
def pad : ℕ → ℕ → List Char
  | 0, _ => []
  | width + 1, n => pad width (n / 10) ++ [Nat.digitChar (n % 10)]

/-- Read a number of `min` to `max` digits from the start of a text. -/
def number (min max : ℕ) (text : List Char) : Option (ℕ × List Char) :=
  let digits := (text.takeWhile Char.isDigit).take max
  if digits.length < min then none
  else some (Nat.ofDigitChars 10 digits 0, text.drop digits.length)

@[simp]
lemma length_pad (width n : ℕ) : (pad width n).length = width := by
  induction width generalizing n with
  | zero => rfl
  | succ width ih => rw [pad, length_append, ih]; rfl

lemma isDigit_of_mem_pad {width n : ℕ} {c : Char} (hc : c ∈ pad width n) : c.isDigit = true := by
  induction width generalizing n with
  | zero => cases hc
  | succ width ih =>
    rw [pad, mem_append, mem_singleton] at hc
    rcases hc with hc | rfl
    · exact ih hc
    · have hdigit : ∀ d < 10, (Nat.digitChar d).isDigit = true := by decide
      exact hdigit _ (mod_lt _ (by decide))

lemma ofDigitChars_pad {width n : ℕ} (h : n < 10 ^ width) :
    Nat.ofDigitChars 10 (pad width n) 0 = n := by
  induction width generalizing n with
  | zero =>
    have hn : n = 0 := by simpa using h
    subst hn
    rfl
  | succ width ih =>
    have hdigit : ∀ d < 10, (Nat.digitChar d).toNat - '0'.toNat = d := by decide
    have hlow : n / 10 < 10 ^ width := by
      rw [pow_succ] at h
      omega
    rw [pad, ofDigitChars_append, ih hlow, ofDigitChars_cons, Nat.ofDigitChars_nil,
      hdigit _ (mod_lt _ (by decide))]
    omega

lemma number_pad {min max width n : ℕ} (h : n < 10 ^ width) (hmin : min ≤ width)
    (hmax : width ≤ max) (hrest : ∀ c ∈ rest.head?, c.isDigit = false) :
    number min max (pad width n ++ rest) = some (n, rest) := by
  have htake : (pad width n).take max = pad width n := take_of_length_le (by simpa using hmax)
  rw [number, takeWhile_run (fun _ hc => isDigit_of_mem_pad hc) hrest, htake, length_pad,
    if_neg (by omega), ofDigitChars_pad h, drop_left' (length_pad width n)]

lemma exists_digitChar {c : Char} (hc : c.isDigit = true) :
    ∃ d < 10, c = Nat.digitChar d ∧ c.toNat - '0'.toNat = d := by
  obtain ⟨hlow, hhigh⟩ := Bool.and_eq_true_iff.1 hc
  have hlow : 48 ≤ c.toNat := of_decide_eq_true hlow
  have hhigh : c.toNat ≤ 57 := of_decide_eq_true hhigh
  have hchar : ∀ d < 10, Char.ofNat (48 + d) = Nat.digitChar d := by decide
  refine ⟨c.toNat - 48, by omega, ?_, rfl⟩
  rw [← hchar _ (by omega), Nat.add_sub_cancel' hlow, Char.ofNat_toNat]

lemma ofDigitChars_concat (digits : List Char) (c : Char) :
    Nat.ofDigitChars 10 (digits ++ [c]) 0 =
      10 * Nat.ofDigitChars 10 digits 0 + (c.toNat - '0'.toNat) := by
  rw [ofDigitChars_append, ofDigitChars_cons, Nat.ofDigitChars_nil]

variable (h : ∀ c ∈ digits, c.isDigit = true)

include h

lemma pad_ofDigitChars : pad digits.length (Nat.ofDigitChars 10 digits 0) = digits := by
  induction digits using List.reverseRecOn with
  | nil => rfl
  | append_singleton digits c ih =>
    obtain ⟨hdigits, hc⟩ := forall_mem_append.1 h
    obtain ⟨d, hd, rfl, hvalue⟩ := exists_digitChar (hc c mem_cons_self)
    rw [ofDigitChars_concat, hvalue, length_append, length_singleton, pad,
      mul_add_div (by decide), div_eq_of_lt hd, mul_add_mod, mod_eq_of_lt hd,
      add_zero, ih hdigits]

lemma ofDigitChars_lt : Nat.ofDigitChars 10 digits 0 < 10 ^ digits.length := by
  induction digits using List.reverseRecOn with
  | nil => exact Nat.one_pos
  | append_singleton digits c ih =>
    obtain ⟨hdigits, hc⟩ := forall_mem_append.1 h
    obtain ⟨d, hd, -, hvalue⟩ := exists_digitChar (hc c mem_cons_self)
    have hbefore := ih hdigits
    rw [ofDigitChars_concat, hvalue, length_append, length_singleton, pow_succ]
    omega

lemma toDigits_ofDigitChars (hne : digits ≠ [])
    (hzero : digits = ['0'] ∨ digits.head? ≠ some '0') :
    Nat.toDigits 10 (Nat.ofDigitChars 10 digits 0) = digits := by
  induction digits using List.reverseRecOn with
  | nil => exact absurd rfl hne
  | append_singleton digits c ih =>
    obtain ⟨hdigits, hc⟩ := forall_mem_append.1 h
    obtain ⟨d, hd, rfl, hvalue⟩ := exists_digitChar (hc c mem_cons_self)
    rw [ofDigitChars_concat, hvalue]
    cases digits with
    | nil =>
      rw [Nat.ofDigitChars_nil, Nat.mul_zero, Nat.zero_add]
      exact toDigits_of_lt_base hd
    | cons first rest =>
      have hfirst : (first :: rest).head? ≠ some '0' := by
        rcases hzero with hzero | hzero
        · simp at hzero
        · exact hzero
      have hbefore := ih hdigits (cons_ne_nil _ _) (.inr hfirst)
      have hpos : 0 < Nat.ofDigitChars 10 (first :: rest) 0 := by
        rw [Nat.pos_iff_ne_zero]
        intro hnull
        rw [hnull] at hbefore
        exact hfirst (hbefore ▸ rfl)
      rw [← toDigits_append_toDigits (by decide) hpos hd, hbefore, toDigits_of_lt_base hd]

end Run

end Wamn.Lib.Decimal
