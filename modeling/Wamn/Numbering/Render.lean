import Mathlib.Data.Nat.Digits.Lemmas
import Wamn.Numbering.Counters
import Wamn.Numbering.Pattern

/-!
# The value and the text of a counter

The renderer takes the value of each counter of a pattern and pads its digits. `next-number` takes a
new value, `peek-number` reads the last one from the row, which holds the next value unless the
counter has a value per key.
-/

namespace Wamn.Numbering

open Nat List Lib.Locking Function

/-! ## Texts -/

/-- A digit as Rust's `{:X}` writes it. -/
def upperDigit (d : ℕ) : Char := if d < 10 then Char.ofNat (48 + d) else Char.ofNat (55 + d)

def digits (base value : ℕ) : List Char :=
  if value = 0 then ['0'] else (Nat.digits base value).reverse.map upperDigit

def Counter.base (counter : Counter) : ℕ := if counter.hex then 16 else 10

/-- `render_counter`. The value is one of the table, which holds no value below 1. -/
def renderCounter (counter : Counter) (value : ℕ) : String :=
  let text := digits counter.base value
  String.ofList (List.replicate (counter.width.getD 0 - text.length) counter.pad ++ text)

section Digits

variable {base value value' : ℕ}

lemma digits_of_pos (h : 1 ≤ value) :
    digits base value = (Nat.digits base value).reverse.map upperDigit :=
  if_neg (by omega)

lemma digits_inj (hbase : 1 < base) (hhex : base ≤ 16) (h : 1 ≤ value) (h' : 1 ≤ value')
    (heq : digits base value = digits base value') : value = value' := by
  -- What the digit of a character is.
  let read (c : Char) : ℕ := if c.toNat < 58 then c.toNat - 48 else c.toNat - 55
  have hread : ∀ d < 16, read (upperDigit d) = d := by decide
  have hdigits : ∀ n, ((Nat.digits base n).reverse.map upperDigit).map read =
      (Nat.digits base n).reverse := by
    intro n
    rw [map_map]
    refine (map_congr_left fun d hd => ?_).trans (map_id _)
    exact hread d ((digits_lt_base hbase (mem_reverse.1 hd)).trans_le hhex)
  rw [digits_of_pos h, digits_of_pos h'] at heq
  have hsame := congrArg (List.map read) heq
  rw [hdigits, hdigits] at hsame
  exact digits_inj_iff.1 (reverse_injective hsame)

lemma length_digits_pos : 0 < (digits base value).length := by
  unfold digits
  split
  · exact one_pos
  · simpa [length_pos_iff, digits_ne_nil_iff_ne_zero]

lemma head_digits (hbase : 1 < base) (h : 1 ≤ value) {c : Char} {rest : List Char}
    (heq : digits base value = c :: rest) : ∃ d, 1 ≤ d ∧ d < base ∧ c = upperDigit d := by
  have hne : Nat.digits base value ≠ [] := digits_ne_nil_iff_ne_zero.2 (by omega)
  rw [digits_of_pos h, ← dropLast_append_getLast hne, reverse_append] at heq
  obtain ⟨rfl, -⟩ := List.cons.inj heq
  have hpos := getLast_digit_ne_zero base (by omega : value ≠ 0)
  exact ⟨_, by omega, digits_lt_base hbase (getLast_mem hne), rfl⟩

end Digits

lemma Counter.base_eq (counter : Counter) : counter.base = 10 ∨ counter.base = 16 := by
  unfold Counter.base
  split
  · exact .inr rfl
  · exact .inl rfl

/-- Of two values with one text, one is spelled as pads before the digits of the other. -/
theorem eq_pads_of_render {counter : Counter} {value value' : ℕ}
    (h : renderCounter counter value = renderCounter counter value') :
    ∃ k ≤ counter.width.getD 0 - 1, digits counter.base value =
        List.replicate k counter.pad ++ digits counter.base value' ∨
      digits counter.base value' = List.replicate k counter.pad ++ digits counter.base value := by
  have hlist := String.ofList_injective h
  obtain ⟨m, hm⟩ : ∃ m, m = counter.width.getD 0 - (digits counter.base value).length := ⟨_, rfl⟩
  obtain ⟨n, hn⟩ : ∃ n, n = counter.width.getD 0 - (digits counter.base value').length := ⟨_, rfl⟩
  rw [← hm, ← hn] at hlist
  have hvalue : 0 < (digits counter.base value).length := length_digits_pos
  have hvalue' : 0 < (digits counter.base value').length := length_digits_pos
  rcases le_total m n with hle | hle
  · obtain ⟨k, rfl⟩ := Nat.exists_eq_add_of_le hle
    rw [replicate_add, append_assoc] at hlist
    exact ⟨k, by omega, .inl (append_cancel_left hlist)⟩
  · obtain ⟨k, rfl⟩ := Nat.exists_eq_add_of_le hle
    rw [replicate_add, append_assoc] at hlist
    exact ⟨k, by omega, .inr (append_cancel_left hlist.symm)⟩

/-- The pad of the counter can be taken for a digit. -/
def Counter.Ambiguous (counter : Counter) : Prop :=
  2 ≤ counter.width.getD 0 ∧ ∃ d, 1 ≤ d ∧ d < counter.base ∧ counter.pad = upperDigit d

lemma renderCounter_inj {counter : Counter} {value value' : ℕ} (hpad : ¬ counter.Ambiguous)
    (hvalue : 1 ≤ value) (hvalue' : 1 ≤ value')
    (h : renderCounter counter value = renderCounter counter value') : value = value' := by
  have hbase : 1 < counter.base ∧ counter.base ≤ 16 := by
    have := counter.base_eq
    omega
  have hinj : ∀ {k n n' : ℕ}, k ≤ counter.width.getD 0 - 1 → 1 ≤ n → 1 ≤ n' →
      digits counter.base n = List.replicate k counter.pad ++ digits counter.base n' → n = n' := by
    intro k n n' hk hn hn' heq
    cases k with
    | zero => exact digits_inj hbase.1 hbase.2 hn hn' heq
    | succ k =>
      -- The first pad stands where the number begins.
      exact absurd ⟨by omega, head_digits hbase.1 hn heq⟩ hpad
  obtain ⟨k, hk, heq | heq⟩ := eq_pads_of_render h
  · exact hinj hk hvalue hvalue' heq
  · exact (hinj hk hvalue' hvalue heq).symm

/-- The digit once and the digit twice are one text if it is the pad too. -/
theorem renderCounter_repdigit {counter : Counter} {d : ℕ} (hpos : 1 ≤ d) (hlt : d < counter.base)
    (hpad : counter.pad = upperDigit d) (hwidth : 2 ≤ counter.width.getD 0) :
    renderCounter counter d = renderCounter counter (d + counter.base * d) := by
  have hone : digits counter.base d = [counter.pad] := by
    rw [digits_of_pos hpos, digits_of_lt _ _ (by omega) hlt, hpad]
    rfl
  have htwo : digits counter.base (d + counter.base * d) = [counter.pad, counter.pad] := by
    rw [digits_of_pos (by omega), digits_add _ (by omega) _ _ hlt (.inl (by omega)),
      digits_of_lt _ _ (by omega) hlt, hpad]
    rfl
  obtain ⟨k, hk⟩ := Nat.exists_eq_add_of_le hwidth
  have hpads : List.replicate (2 + k - 1) counter.pad ++ [counter.pad] =
      List.replicate (2 + k - 2) counter.pad ++ [counter.pad, counter.pad] := by
    rw [show 2 + k - 1 = k + 1 by omega, show 2 + k - 2 = k by omega, replicate_succ']
    simp
  simp only [renderCounter, hone, htwo, hk, length_cons, length_nil, hpads]

/-- A counter renders different values differently exactly if its pad is `0` or no digit of its
style, or its width leaves no place for one. -/
theorem renderCounter_distinct_iff (counter : Counter) :
    (∀ value value', 1 ≤ value → value ≤ maxBigint → 1 ≤ value' → value' ≤ maxBigint →
      value ≠ value' → renderCounter counter value ≠ renderCounter counter value') ↔
    ¬ counter.Ambiguous := by
  constructor
  · rintro hdistinct ⟨hwidth, d, hpos, hlt, hpad⟩
    have hbase := counter.base_eq
    have hmax : d + counter.base * d ≤ 16 + 16 * 16 := by
      have := mul_le_mul (show counter.base ≤ 16 by omega) (show d ≤ 16 by omega)
      omega
    have hne : d ≠ d + counter.base * d := by
      have := mul_pos (show 0 < counter.base by omega) hpos
      omega
    exact hdistinct d _ hpos (by unfold maxBigint; omega) (by omega)
      (by unfold maxBigint; omega) hne
      (renderCounter_repdigit hpos hlt hpad hwidth)
  · intro hpad value value' hvalue _ hvalue' _ hne h
    exact hne (renderCounter_inj hpad hvalue hvalue' h)

/-! ## Values -/

inductive NumberCall where
  | next
  | peek
  deriving DecidableEq

/-- `counter_value`, where `per` tells a counter with a value per key. -/
def counterValue (p : Platform) (r : CounterRow) (per : Bool) : NumberCall → CounterFunction
  | .next =>
    if per then
      .perform (selectRow r) fun
        | some value => .ret (some value)
        | none => assignCounter p r
    else bumpCounter p r
  | .peek => .perform (selectRow r) fun stored =>
    .ret (if per then stored else (stored.filter (1 < ·)).map (· - 1))

def issue (per : Bool) (r : CounterRow) : Call := if per then .assignCounter r else .bumpCounter r

/-- The value that the last committed call to issue one for the row returned. -/
def lastIssued (r : CounterRow) (log : List (Call × Option ℕ)) : Option ℕ :=
  (log.filter fun call => call.1 ∈ [issue false r, issue true r]).getLast?.bind Prod.snd

/-- The last committed call for the row issued a value of the counter, or there is none. -/
def Settled (per : Bool) (r : CounterRow) (log : List (Call × Option ℕ)) : Prop :=
  ∀ call ∈ (log.filter fun call => r ∈ call.1.written).getLast?, call.1 = issue per r

section Peek

variable {p : Platform} {r : CounterRow} {per : Bool} {u v : Rows CounterRow ℕ} {b : Option ℕ}

lemma mem_written_issue : r ∈ (issue per r).written := by
  cases per <;> simp [issue, Call.written]

lemma exec_setCounter {value : ℤ} (h : (setCounter p r value).exec u = some (b, v)) :
    1 ≤ value ∧ v = update u r (some value.toNat) := by
  unfold setCounter at h
  split at h
  · cases h
  split at h
  · cases h
  obtain ⟨⟨answer, writes⟩, hrun, hret⟩ := Option.bind_eq_some_iff.1 h
  obtain ⟨-, rfl⟩ := writeRow_eq_some hrun
  obtain ⟨-, rfl⟩ := Prod.mk.inj (Option.some.inj hret)
  exact ⟨by omega, rfl⟩

/-- Every row holds a value that the table admits. -/
def Positive (v : Rows CounterRow ℕ) : Prop := ∀ r n, v r = some n → 1 ≤ n

lemma Positive.next (h : Positive u) : 1 ≤ Numbering.next u r := by
  cases hr : u r with
  | none => simp [Numbering.next, hr]
  | some n => simpa [Numbering.next, hr] using h r n hr

lemma Positive.update (h : Positive u) {n : ℕ} (hn : 1 ≤ n) :
    Positive (update u r (some n)) := by
  intro r' n' hr'
  by_cases heq : r' = r
  · rw [heq, update_self] at hr'
    exact Option.some.inj hr' ▸ hn
  · rw [update_of_ne heq] at hr'
    exact h r' n' hr'

lemma Positive.exec {c : Call} (h : Positive u) (hexec : (c.body p).exec u = some (b, v)) :
    Positive v := by
  cases c with
  | bumpCounter r =>
    obtain ⟨-, rfl⟩ := exec_bumpCounter hexec
    exact h.update (le_add_left 1 _)
  | assignCounter r =>
    obtain ⟨-, ⟨_, -, -, rfl⟩ | ⟨-, -, rfl⟩⟩ := exec_assignCounter hexec
    · exact h
    · exact (h.update (le_add_left 1 _)).update h.next
  | setCounter r value =>
    obtain ⟨hvalue, rfl⟩ := exec_setCounter hexec
    exact h.update (by omega)
  | readCounter r =>
    obtain ⟨-, rfl⟩ := Prod.mk.inj (Option.some.inj hexec)
    exact h

lemma exec_peek : (counterValue p r per .peek).exec u =
    some (if per then u r else ((u r).filter (1 < ·)).map (· - 1), u) := rfl

lemma peek_issue (hu : Positive u) (h : ((issue per r).body p).exec u = some (b, v)) :
    (counterValue p r per .peek).exec v = some (b, v) := by
  cases per with
  | false =>
    obtain ⟨rfl, rfl⟩ := exec_bumpCounter h
    have hnext : 1 < next u r + 1 := lt_succ_of_le hu.next
    simp [exec_peek, Option.filter, hnext]
  | true =>
    obtain ⟨-, ⟨value, hvalue, rfl, rfl⟩ | ⟨-, rfl, rfl⟩⟩ := exec_assignCounter h
    · simp [exec_peek, hvalue]
    · simp [exec_peek]

/-- A peek tells the last issued value if no later call changed the row without issuing one. -/
theorem peek_lastIssued (p : Platform) (r : CounterRow) (per : Bool)
    (log : List (Call × Option ℕ)) (s : Rows CounterRow ℕ)
    (hserial : Serial (Call.body p) (fun _ => none) log s) (hsettled : Settled per r log) :
    (counterValue p r per .peek).exec s = some (lastIssued r log, s) := by
  refine (hserial.invariant (fun done v => Positive v ∧ (Settled per r done →
    (counterValue p r per .peek).exec v = some (lastIssued r done, v))) ?_ ?_).2 hsettled
  · refine ⟨nofun, fun _ => ?_⟩
    cases per <;> rfl
  rintro done u c b v ⟨hpositive, hdone⟩ - hexec
  refine ⟨hpositive.exec hexec, fun hsettled => ?_⟩
  by_cases hr : r ∈ c.written
  · -- The call is the last for the row, so it is the one that issues.
    obtain rfl : c = issue per r := hsettled (c, b) (by simp [hr])
    have hlast : lastIssued r (done ++ [(issue per r, b)]) = b := by
      cases per <;> simp [lastIssued]
    rw [hlast]
    exact peek_issue hpositive hexec
  · -- The call leaves the row, and is none that issues.
    have hne : ∀ per, c ≠ issue per r := by
      rintro per rfl
      exact hr mem_written_issue
    have hlast : lastIssued r (done ++ [(c, b)]) = lastIssued r done := by
      simp [lastIssued, hne]
    have hforeign : (c.body p).Foreign (· = r) := foreign_body c fun r' hr' heq => hr (heq ▸ hr')
    have hrow : v r = u r := hforeign.exec_eq hexec rfl
    have hpeek := hdone (by simpa [Settled, hr] using hsettled)
    rw [exec_peek] at hpeek ⊢
    rw [hlast, hrow, (Prod.mk.inj (Option.some.inj hpeek)).1]

end Peek

namespace Sample

/-- The number of the first record is that of the eleventh. -/
theorem render_ones : ∃ counter, parse "\x7bseq:n,width=2,pad=1\x7d" = .ok ⟨[.counter counter]⟩ ∧
    renderCounter counter 1 = renderCounter counter 11 := by
  exact ⟨⟨"n", .always, some 2, '1', false⟩, by decide +kernel, by decide +kernel⟩

/-- After the row of a new counter is set to 5, a peek tells 4, which was never issued. -/
theorem peek_of_set : ∃ s, Serial (Call.body platform) (fun _ => none)
      [(.setCounter order 5, none)] s ∧ lastIssued order [(.setCounter order 5, none)] = none ∧
    (counterValue platform order false .peek).exec s = some (some 4, s) :=
  ⟨_, .cons rfl .nil, rfl, rfl⟩

theorem peek_of_issued : ∃ s, Serial (Call.body platform) (fun _ => none)
      [(.setCounter order 5, none), (.bumpCounter order, some 5)] s ∧
    (counterValue platform order false .peek).exec s = some (some 5, s) := by
  have hserial : Serial (Call.body platform) (fun _ => none)
      [(.setCounter order 5, none), (.bumpCounter order, some 5)] _ := .cons rfl (.cons rfl .nil)
  exact ⟨_, hserial,
    peek_lastIssued platform order false _ _ hserial (by simp [Settled, Call.written, issue])⟩

end Sample

end Wamn.Numbering
