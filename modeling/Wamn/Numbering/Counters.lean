import Mathlib.Algebra.Group.Nat.Defs
import Mathlib.Data.Int.Notation
import Mathlib.Data.List.Range
import Wamn.Lib.StrictLocking

/-!
# Number counters

`number_counter` holds one row for each sequence, counter and key. `bump_counter` issues the next
value of one row, `assign_counter` gives each key one value from the allocator row with the empty
key, and `set_counter` sets the next value. Transactions interleave, and a rollback gives values
back. Whether a counter is advanced row by row or allocated per key is up to the caller.
-/

namespace Wamn.Numbering

open List Lib.Locking Function

/-! ## The table -/

structure CounterRow where
  sequence : ℕ
  counter : String
  key : String
  deriving DecidableEq

def CounterRow.allocator (r : CounterRow) : CounterRow := { r with key := "" }

/-- A lock on a row, also of an insert that waits for another, or an advisory one. -/
inductive Lock where
  | row (r : CounterRow)
  | advisory (hash : ℕ)
  deriving DecidableEq

/-- Which sequences exist, and `hashtextextended` of the text that names a row. -/
structure Platform where
  isSequence : ℕ → Bool
  hash : CounterRow → ℕ

def maxBigint : ℕ := 2 ^ 63 - 1

abbrev CounterStatement := Statement Lock CounterRow ℕ (Option ℕ)

abbrev CounterFunction := Procedure Lock CounterRow ℕ (Option ℕ) (Option ℕ)

/-- Write a row, if the type and the checks of the table admit it. -/
def writeRow (r : CounterRow) (value : ℕ) (answer : Option ℕ) :
    Option (Option ℕ × List (CounterRow × ℕ)) :=
  if r.counter ≠ "" ∧ 1 ≤ value ∧ value ≤ maxBigint then some (answer, [(r, value)]) else none

lemma writeRow_eq_some {r : CounterRow} {value : ℕ} {answer answer' : Option ℕ}
    {writes : List (CounterRow × ℕ)} (h : writeRow r value answer = some (answer', writes)) :
    answer = answer' ∧ writes = [(r, value)] := by
  unfold writeRow at h
  split at h
  · simpa [eq_comm] using h
  · cases h

lemma mem_of_writeRow {r : CounterRow} {value : ℕ} {answer answer' : Option ℕ}
    {writes : List (CounterRow × ℕ)} (h : writeRow r value answer = some (answer', writes)) :
    ∀ write ∈ writes, write.1 ∈ [r] := by
  obtain ⟨-, rfl⟩ := writeRow_eq_some h
  simp

/-- Insert the row at 2, or increment its value. The answer is the value before. -/
def bumpRow (r : CounterRow) : CounterStatement where
  locks := [.row r]
  rows := [r]
  run v :=
    match v r with
    | none => writeRow r 2 (some 1)
    | some value => writeRow r (value + 1) (some value)
  run_congr h := by rw [h r mem_cons_self]
  mem_rows h := by
    split at h
    · exact mem_of_writeRow h
    · exact mem_of_writeRow h

def selectRow (r : CounterRow) : CounterStatement where
  locks := []
  rows := [r]
  run v := some (v r, [])
  run_congr h := by rw [h r mem_cons_self]
  mem_rows h := by
    obtain ⟨-, rfl⟩ := Prod.mk.inj (Option.some.inj h)
    exact nofun

def insertRow (r : CounterRow) (value : Option ℕ) : CounterStatement where
  locks := [.row r]
  rows := [r]
  run v :=
    match value, v r with
    | some value, none => writeRow r value none
    | _, _ => none
  run_congr h := by rw [h r mem_cons_self]
  mem_rows h := by
    split at h
    · exact mem_of_writeRow h
    · cases h

def upsertRow (r : CounterRow) (value : ℕ) : CounterStatement where
  locks := [.row r]
  rows := [r]
  run _ := writeRow r value none
  run_congr _ := rfl
  mem_rows h := mem_of_writeRow h

def advisoryLock (hash : ℕ) : CounterStatement where
  locks := [.advisory hash]
  rows := []
  run _ := some (none, [])
  run_congr _ := rfl
  mem_rows h := by
    obtain ⟨-, rfl⟩ := Prod.mk.inj (Option.some.inj h)
    exact nofun

/-! ## The functions -/

def bumpCounter (p : Platform) (r : CounterRow) : CounterFunction :=
  if p.isSequence r.sequence then .perform (bumpRow r) .ret else .raise

/-- `platform.assign_counter`. The empty key is the allocator itself. -/
def assignCounter (p : Platform) (r : CounterRow) : CounterFunction :=
  if ¬ p.isSequence r.sequence then .raise
  else if r.key = "" then .raise
  else .perform (advisoryLock (p.hash r)) fun _ => .perform (selectRow r) fun
    | some assigned => .ret (some assigned)
    | none => .perform (bumpRow r.allocator) fun assigned =>
      .perform (insertRow r assigned) fun _ => .ret assigned

def setCounter (p : Platform) (r : CounterRow) (value : ℤ) : CounterFunction :=
  if ¬ p.isSequence r.sequence then .raise
  else if value < 1 then .raise
  else .perform (upsertRow r value.toNat) fun _ => .ret none

/-- The calls of the three functions, and the read of a row by the renderer. -/
inductive Call where
  | bumpCounter (r : CounterRow)
  | assignCounter (r : CounterRow)
  | setCounter (r : CounterRow) (value : ℤ)
  | readCounter (r : CounterRow)
  deriving DecidableEq

def Call.body (p : Platform) : Call → CounterFunction
  | .bumpCounter r => Numbering.bumpCounter p r
  | .assignCounter r => Numbering.assignCounter p r
  | .setCounter r value => Numbering.setCounter p r value
  | .readCounter r => .perform (selectRow r) .ret

/-- The table under open transactions, with the committed calls and what they returned. -/
abbrev Database := Db ℕ Lock CounterRow ℕ (Option ℕ) (Option ℕ) Call

def empty : Database := Db.idle (fun _ => none) []

/-! ## Each function on its own -/

section Exec

variable {p : Platform} {r : CounterRow} {u v : Rows CounterRow ℕ} {b : Option ℕ}

def next (v : Rows CounterRow ℕ) (r : CounterRow) : ℕ := (v r).getD 1

lemma run_bumpRow {answer : Option ℕ} {writes : List (CounterRow × ℕ)}
    (h : (bumpRow r).run v = some (answer, writes)) :
    answer = some (next v r) ∧ writes = [(r, next v r + 1)] := by
  simp only [bumpRow] at h
  split at h
  · rename_i hv
    obtain ⟨rfl, rfl⟩ := writeRow_eq_some h
    simp [next, hv]
  · rename_i hv
    obtain ⟨rfl, rfl⟩ := writeRow_eq_some h
    simp [next, hv]

lemma exec_bumpCounter (h : (bumpCounter p r).exec u = some (b, v)) :
    b = some (next u r) ∧ v = update u r (some (next u r + 1)) := by
  unfold bumpCounter at h
  split at h
  · obtain ⟨⟨answer, writes⟩, hrun, hret⟩ := Option.bind_eq_some_iff.1 h
    obtain ⟨rfl, rfl⟩ := run_bumpRow hrun
    obtain ⟨rfl, rfl⟩ := Prod.mk.inj (Option.some.inj hret)
    exact ⟨rfl, rfl⟩
  · cases h

lemma exec_assignCounter (h : (assignCounter p r).exec u = some (b, v)) :
    r.key ≠ "" ∧ ((∃ value, u r = some value ∧ b = some value ∧ v = u) ∨
      u r = none ∧ b = some (next u r.allocator) ∧
        v = update (update u r.allocator (some (next u r.allocator + 1))) r
          (some (next u r.allocator))) := by
  unfold assignCounter at h
  split at h
  · cases h
  split at h
  · cases h
  rename_i hkey
  refine ⟨hkey, ?_⟩
  -- The advisory lock is taken, then the key row is read.
  have h : (match u r with
      | some assigned => Procedure.ret (some assigned)
      | none => .perform (bumpRow r.allocator) fun assigned =>
        .perform (insertRow r assigned) fun _ => .ret assigned : CounterFunction).exec u =
      some (b, v) := h
  cases hr : u r with
  | some value =>
    rw [hr] at h
    obtain ⟨rfl, rfl⟩ := Prod.mk.inj (Option.some.inj h)
    exact .inl ⟨value, rfl, rfl, rfl⟩
  | none =>
    rw [hr] at h
    obtain ⟨⟨assigned, writes⟩, hbump, h⟩ := Option.bind_eq_some_iff.1 h
    obtain ⟨rfl, rfl⟩ := run_bumpRow hbump
    obtain ⟨⟨_, writes⟩, hinsert, h⟩ := Option.bind_eq_some_iff.1 h
    obtain ⟨rfl, rfl⟩ := Prod.mk.inj (Option.some.inj h)
    refine .inr ⟨rfl, rfl, ?_⟩
    simp only [insertRow] at hinsert
    split at hinsert
    · rename_i value hvalue _
      obtain ⟨-, rfl⟩ := writeRow_eq_some hinsert
      obtain rfl := Option.some.inj hvalue
      rfl
    · cases hinsert

end Exec

/-! ## What each function writes -/

def Call.written : Call → List CounterRow
  | .bumpCounter r => [r]
  | .assignCounter r => [r, r.allocator]
  | .setCounter r _ => [r]
  | .readCounter _ => []

section Discipline

variable {p : Platform} {studied : CounterRow → Prop}

lemma foreign_body (c : Call) (h : ∀ r ∈ c.written, ¬ studied r) :
    (c.body p).Foreign studied := by
  have hone : ∀ r ∈ c.written, ∀ r' ∈ [r], ¬ studied r' := by simpa using h
  cases c with
  | bumpCounter r =>
    rw [Call.body, bumpCounter]
    split
    · exact ⟨(bumpRow r).not_studied_of_rows (hone r (by simp [Call.written])), fun _ => trivial⟩
    · trivial
  | assignCounter r =>
    rw [Call.body, assignCounter]
    split
    · trivial
    split
    · trivial
    refine ⟨(advisoryLock _).not_studied_of_rows nofun, fun _ => ⟨?_, fun answer => ?_⟩⟩
    · exact fun _ _ _ hrun => by obtain ⟨-, rfl⟩ := Prod.mk.inj (Option.some.inj hrun); exact nofun
    cases answer with
    | some assigned => trivial
    | none =>
      exact ⟨(bumpRow _).not_studied_of_rows (hone r.allocator (by simp [Call.written])), fun _ =>
        ⟨(insertRow r _).not_studied_of_rows (hone r (by simp [Call.written])), fun _ => trivial⟩⟩
  | setCounter r value =>
    rw [Call.body, setCounter]
    split
    · trivial
    split
    · trivial
    exact ⟨(upsertRow r _).not_studied_of_rows (hone r (by simp [Call.written])), fun _ => trivial⟩
  | readCounter r =>
    refine ⟨fun _ _ _ hrun => ?_, fun _ => trivial⟩
    obtain ⟨-, rfl⟩ := Prod.mk.inj (Option.some.inj hrun)
    exact nofun

end Discipline

/-! ## Rows that only `bump_counter` writes -/

section Bump

variable {p : Platform} {r : CounterRow} {db : Database}

/-- A call that writes the row is a `bump_counter` of it. -/
def OnlyBump (r : CounterRow) (c : Call) : Prop := r ∈ c.written → c = .bumpCounter r

/-- What the committed calls of `bump_counter` returned for the row, in commit order. -/
def issued (r : CounterRow) (log : List (Call × Option ℕ)) : List (Option ℕ) :=
  (log.filter fun call => call.1 = .bumpCounter r).map Prod.snd

lemma wellLocked_bumpCounter :
    (bumpCounter p r).WellLocked (· = r) Lock.row fun _ => False := by
  rw [bumpCounter]
  split
  · exact ⟨by simp [bumpRow], fun _ => trivial⟩
  · trivial

lemma serial_bump (hrun : Runs (Call.body p) (OnlyBump r) empty db) :
    ∃ s, Serial (Call.body p) (fun _ => none)
      (db.log.filter fun call => call.1 = .bumpCounter r) s := by
  have hown : ∀ c, OnlyBump r c → decide (c = .bumpCounter r) = true →
      (c.body p).WellLocked (· = r) Lock.row fun _ => False := by
    rintro c - hc
    obtain rfl := of_decide_eq_true hc
    exact wellLocked_bumpCounter
  have hforeign : ∀ c, OnlyBump r c → decide (c = .bumpCounter r) = false →
      (c.body p).Foreign (· = r) := by
    intro c hcall hc
    refine foreign_body c ?_
    rintro r' hr' rfl
    exact of_decide_eq_false hc (hcall hr')
  obtain ⟨s, hserial, -⟩ :=
    serial_of_run (· = r) Lock.row (fun c => c = .bumpCounter r) hown hforeign hrun
  exact ⟨s, hserial⟩

lemma issued_eq_range (hrun : Runs (Call.body p) (OnlyBump r) empty db) :
    ∃ n, issued r db.log = (List.range' 1 n).map some := by
  obtain ⟨s, hserial⟩ := serial_bump hrun
  -- After `n` calls the values up to `n` are issued and the row renders `n + 1` next.
  refine ⟨_, (hserial.invariant
    (fun done v => done.map Prod.snd = (List.range' 1 done.length).map some ∧
      next v r = done.length + 1) ⟨rfl, rfl⟩ ?_).1⟩
  rintro done u c b v ⟨hissued, hnext⟩ hmem hexec
  obtain rfl : c = .bumpCounter r := by simpa using (mem_filter.1 hmem).2
  obtain ⟨rfl, rfl⟩ := exec_bumpCounter hexec
  rw [hnext]
  constructor
  · simp [hissued, range'_concat, Nat.add_comm]
  · simp [next]

end Bump

/-! ## Counters that only `assign_counter` writes -/

section Assign

variable {p : Platform} {sequence : ℕ} {counter : String} {db : Database}

/-- A call that writes a row of the counter is an `assign_counter`. -/
def OnlyAssign (sequence : ℕ) (counter : String) (c : Call) : Prop :=
  ∀ r ∈ c.written, r.sequence = sequence ∧ r.counter = counter → ∃ r', c = .assignCounter r'

/-- The calls of `assign_counter` for a counter. -/
def isAssign (sequence : ℕ) (counter : String) : Call → Bool
  | .assignCounter r => r.sequence = sequence ∧ r.counter = counter
  | _ => false

/-- The lock that guards a row: its own for the allocator, else the advisory lock of its key. -/
def assignGuard (p : Platform) (r : CounterRow) : Lock :=
  if r.key = "" then .row r else .advisory (p.hash r)

/-- A committed call of `assign_counter` returned the value for the key. -/
def Assigned (sequence : ℕ) (counter : String) (log : List (Call × Option ℕ)) (key : String)
    (value : ℕ) : Prop :=
  (Call.assignCounter ⟨sequence, counter, key⟩, some value) ∈ log

lemma wellLocked_assignCounter {r : CounterRow}
    (hr : r.sequence = sequence ∧ r.counter = counter) :
    (assignCounter p r).WellLocked (fun r => r.sequence = sequence ∧ r.counter = counter)
      (assignGuard p) fun _ => False := by
  rw [assignCounter]
  split
  · trivial
  split
  · trivial
  rename_i hkey
  have hguard : assignGuard p r = .advisory (p.hash r) := if_neg hkey
  -- The advisory lock guards the read of the key row and its insert, the row lock the allocator.
  refine ⟨nofun, fun _ => ⟨?_, fun answer => ?_⟩⟩
  · simp [selectRow, advisoryLock, hguard, hr]
  cases answer with
  | some assigned => trivial
  | none =>
    refine ⟨?_, fun _ => ⟨?_, fun _ => trivial⟩⟩
    · simp [bumpRow, assignGuard, CounterRow.allocator, hr]
    · simp [insertRow, selectRow, bumpRow, advisoryLock, hguard, hr]

/-- The committed calls of `assign_counter` for the counter are serial and end in its rows. -/
theorem serial_assign (hrun : Runs (Call.body p) (OnlyAssign sequence counter) empty db) :
    ∃ s, Serial (Call.body p) (fun _ => none)
      (db.log.filter fun call => isAssign sequence counter call.1) s ∧
        ∀ r, r.sequence = sequence ∧ r.counter = counter → s r = db.store r := by
  refine serial_of_run _ (assignGuard p) (isAssign sequence counter) ?_ ?_ hrun
  · rintro c - hc
    cases c with
    | assignCounter r => exact wellLocked_assignCounter (of_decide_eq_true hc)
    | _ => cases hc
  · intro c hcall hc
    refine foreign_body c fun r hr hstudied => ?_
    obtain ⟨r', rfl⟩ := hcall r hr hstudied
    -- Both rows that the call writes are of its own counter.
    have hsame : r'.sequence = r.sequence ∧ r'.counter = r.counter := by
      rcases mem_cons.1 hr with rfl | hr
      · exact ⟨rfl, rfl⟩
      · rw [mem_singleton.1 hr]
        exact ⟨rfl, rfl⟩
    rw [← hsame.1, ← hsame.2] at hstudied
    exact of_decide_eq_false hc hstudied

/-- Every key that was called has a row with the returned value, and the values are those below the
next of the allocator, one for each key. -/
structure Allotted (sequence : ℕ) (counter : String) (done : List (Call × Option ℕ))
    (v : Rows CounterRow ℕ) : Prop where
  returned : ∀ call ∈ done, ∃ value, call.2 = some value
  rows : ∀ key value, key ≠ "" →
    (v ⟨sequence, counter, key⟩ = some value ↔ Assigned sequence counter done key value)
  keys : ∀ key value, Assigned sequence counter done key value → key ≠ ""
  range : ∀ value, (∃ key, key ≠ "" ∧ v ⟨sequence, counter, key⟩ = some value) ↔
    1 ≤ value ∧ value < next v ⟨sequence, counter, ""⟩
  injective : ∀ key key' value, key ≠ "" → key' ≠ "" → v ⟨sequence, counter, key⟩ = some value →
    v ⟨sequence, counter, key'⟩ = some value → key = key'
  positive : 1 ≤ next v ⟨sequence, counter, ""⟩

lemma allotted_empty : Allotted sequence counter [] fun _ => none where
  returned := nofun
  rows := by simp [Assigned]
  keys := by simp [Assigned]
  range value := by simp [next]; omega
  injective := nofun
  positive := Nat.le_refl 1

lemma assigned_append {done : List (Call × Option ℕ)} {key key' : String} {value value' : ℕ} :
    Assigned sequence counter
        (done ++ [(Call.assignCounter ⟨sequence, counter, key'⟩, some value')]) key value ↔
      Assigned sequence counter done key value ∨ key = key' ∧ value = value' := by
  simp [Assigned]

section Step

variable {done : List (Call × Option ℕ)} {u v : Rows CounterRow ℕ} {key : String}

variable (h : Allotted sequence counter done u)

include h

lemma Allotted.again {value : ℕ} (hkey : key ≠ "")
    (hvalue : u ⟨sequence, counter, key⟩ = some value) :
    Allotted sequence counter
      (done ++ [(Call.assignCounter ⟨sequence, counter, key⟩, some value)]) u where
  returned := by simpa [or_imp, forall_and] using h.returned
  rows key' value' hkey' := by
    have hdone := (h.rows key value hkey).1 hvalue
    rw [h.rows key' value' hkey', assigned_append]
    exact ⟨.inl, fun h' => h'.elim id fun heq => heq.1 ▸ heq.2 ▸ hdone⟩
  keys key' value' hassigned := by
    rcases assigned_append.1 hassigned with hold | ⟨rfl, -⟩
    · exact h.keys key' value' hold
    · exact hkey
  range := h.range
  injective := h.injective
  positive := h.positive

/-- A new key takes the next value of the allocator, which no key has. -/
theorem Allotted.allocate (hkey : key ≠ "") (hnone : u ⟨sequence, counter, key⟩ = none)
    (hself : v ⟨sequence, counter, key⟩ = some (next u ⟨sequence, counter, ""⟩))
    (hother : ∀ key', key' ≠ "" → key' ≠ key →
      v ⟨sequence, counter, key'⟩ = u ⟨sequence, counter, key'⟩)
    (hnext : next v ⟨sequence, counter, ""⟩ = next u ⟨sequence, counter, ""⟩ + 1) :
    Allotted sequence counter (done ++ [(Call.assignCounter ⟨sequence, counter, key⟩,
      some (next u ⟨sequence, counter, ""⟩))]) v := by
  have hpositive := h.positive
  have hrange := h.range
  generalize next u ⟨sequence, counter, ""⟩ = n at hself hnext hpositive hrange ⊢
  have hfresh : ∀ key', key' ≠ "" → u ⟨sequence, counter, key'⟩ ≠ some n := by
    intro key' hkey' hvalue
    have := ((hrange n).1 ⟨key', hkey', hvalue⟩).2
    omega
  have hunassigned : ∀ value, ¬ Assigned sequence counter done key value := by
    intro value hassigned
    rw [← h.rows key value hkey, hnone] at hassigned
    cases hassigned
  refine ⟨?_, fun key' value' hkey' => ?_, fun key' value' hassigned => ?_, fun value => ?_, ?_, ?_⟩
  · simpa [or_imp, forall_and] using h.returned
  · rw [assigned_append]
    by_cases hne : key' = key
    · subst hne
      simp [hself, hunassigned, eq_comm]
    · rw [hother key' hkey' hne, h.rows key' value' hkey']
      simp [hne]
  · rcases assigned_append.1 hassigned with hold | ⟨rfl, -⟩
    · exact h.keys key' value' hold
    · exact hkey
  · rw [hnext]
    constructor
    · rintro ⟨key', hkey', hvalue⟩
      by_cases hne : key' = key
      · rw [hne, hself] at hvalue
        obtain rfl := Option.some.inj hvalue
        omega
      · rw [hother key' hkey' hne] at hvalue
        have := (hrange value).1 ⟨key', hkey', hvalue⟩
        omega
    · intro hvalue
      by_cases heq : value = n
      · exact ⟨key, hkey, heq ▸ hself⟩
      · obtain ⟨key', hkey', hold⟩ := (hrange value).2 (by omega)
        have hne : key' ≠ key := by
          rintro rfl
          rw [hnone] at hold
          cases hold
        exact ⟨key', hkey', (hother key' hkey' hne).trans hold⟩
  · -- Two keys with one value: neither is the new one unless both are.
    intro key₁ key₂ value hkey₁ hkey₂ h₁ h₂
    by_cases hne₁ : key₁ = key
    · by_cases hne₂ : key₂ = key
      · rw [hne₁, hne₂]
      · rw [hother key₂ hkey₂ hne₂] at h₂
        rw [hne₁, hself] at h₁
        exact absurd (h₂.trans h₁.symm) (hfresh key₂ hkey₂)
    · rw [hother key₁ hkey₁ hne₁] at h₁
      by_cases hne₂ : key₂ = key
      · rw [hne₂, hself] at h₂
        exact absurd (h₁.trans h₂.symm) (hfresh key₁ hkey₁)
      · rw [hother key₂ hkey₂ hne₂] at h₂
        exact h.injective key₁ key₂ value hkey₁ hkey₂ h₁ h₂
  · rw [hnext]
    omega

lemma Allotted.step {b : Option ℕ}
    (hexec : (assignCounter p ⟨sequence, counter, key⟩).exec u = some (b, v)) :
    Allotted sequence counter
      (done ++ [(Call.assignCounter ⟨sequence, counter, key⟩, b)]) v := by
  obtain ⟨hkey, ⟨value, hvalue, rfl, rfl⟩ | ⟨hnone, rfl, rfl⟩⟩ := exec_assignCounter hexec
  · exact h.again hkey hvalue
  · refine h.allocate hkey hnone (update_self ..) (fun key' hkey' hne => ?_) ?_
    · rw [update_of_ne (by simpa using hne), CounterRow.allocator,
        update_of_ne (by simpa using hkey')]
    · rw [next, update_of_ne (by simpa using hkey.symm), CounterRow.allocator,
        update_self]
      rfl

end Step

lemma allotted_of_run (hrun : Runs (Call.body p) (OnlyAssign sequence counter) empty db) :
    ∃ s, Allotted sequence counter
      (db.log.filter fun call => isAssign sequence counter call.1) s ∧
        ∀ key, s ⟨sequence, counter, key⟩ = db.store ⟨sequence, counter, key⟩ := by
  obtain ⟨s, hserial, hstore⟩ := serial_assign hrun
  refine ⟨s, hserial.invariant (Allotted sequence counter) allotted_empty ?_,
    fun key => hstore _ ⟨rfl, rfl⟩⟩
  intro done u c b v h hmem hexec
  have hassign := (mem_filter.1 hmem).2
  cases c with
  | assignCounter r =>
    obtain ⟨rfl, rfl⟩ := of_decide_eq_true hassign
    exact h.step hexec
  | _ => cases hassign

lemma assigned_filter {log : List (Call × Option ℕ)} {key : String} {value : ℕ} :
    Assigned sequence counter (log.filter fun call => isAssign sequence counter call.1) key value ↔
      Assigned sequence counter log key value := by
  simp [Assigned, isAssign]

end Assign

/-- Counters issue without gap or repetition, however transactions interleave and abort. What
`bump_counter` returned for a row that nothing else writes is, in commit order, 1, 2, 3, … For a
counter that only `assign_counter` writes, every call returned a value, a key keeps its value and
its row holds it, and the values of different keys differ and have no gap. -/
theorem counters_gapless (p : Platform) (db : Database) :
    (∀ r, Runs (Call.body p) (OnlyBump r) empty db →
      ∃ n, issued r db.log = (List.range' 1 n).map some) ∧
    ∀ sequence counter, Runs (Call.body p) (OnlyAssign sequence counter) empty db →
      (∀ key b, (Call.assignCounter ⟨sequence, counter, key⟩, b) ∈ db.log →
        ∃ value, b = some value) ∧
      (∀ key value value', Assigned sequence counter db.log key value →
        Assigned sequence counter db.log key value' → value = value') ∧
      (∀ key value, key ≠ "" → (db.store ⟨sequence, counter, key⟩ = some value ↔
        Assigned sequence counter db.log key value)) ∧
      (∀ key key' value, Assigned sequence counter db.log key value →
        Assigned sequence counter db.log key' value → key = key') ∧
      ∃ n, ∀ value, (∃ key, Assigned sequence counter db.log key value) ↔
        1 ≤ value ∧ value ≤ n := by
  refine ⟨fun r hrun => issued_eq_range hrun, fun sequence counter hrun => ?_⟩
  obtain ⟨s, hs, hstore⟩ := allotted_of_run hrun
  have hrows : ∀ key value, key ≠ "" → (s ⟨sequence, counter, key⟩ = some value ↔
      Assigned sequence counter db.log key value) := by
    intro key value hkey
    rw [hs.rows key value hkey, assigned_filter]
  have hkeys : ∀ key value, Assigned sequence counter db.log key value → key ≠ "" :=
    fun key value h => hs.keys key value (assigned_filter.2 h)
  refine ⟨fun key b hb => ?_, fun key value value' h h' => ?_, fun key value hkey => ?_,
    fun key key' value h h' => ?_, next s ⟨sequence, counter, ""⟩ - 1, fun value => ?_⟩
  · exact hs.returned _ (mem_filter.2 ⟨hb, by simp [isAssign]⟩)
  · have hkey := hkeys key value h
    rw [← hrows key value hkey] at h
    rw [← hrows key value' hkey] at h'
    exact Option.mem_unique h h'
  · rw [← hstore, hrows key value hkey]
  · have hkey := hkeys key value h
    have hkey' := hkeys key' value h'
    exact hs.injective key key' value hkey hkey' ((hrows key value hkey).2 h)
      ((hrows key' value hkey').2 h')
  · have hrange := hs.range value
    constructor
    · rintro ⟨key, h⟩
      have hkey := hkeys key value h
      have := hrange.1 ⟨key, hkey, (hrows key value hkey).2 h⟩
      omega
    · intro hvalue
      obtain ⟨key, hkey, hrow⟩ := hrange.2 (by omega)
      exact ⟨key, (hrows key value hkey).1 hrow⟩

namespace Sample

/-- One sequence, and one advisory lock for all keys. -/
def platform : Platform where
  isSequence sequence := sequence = 1
  hash _ := 0

def order : CounterRow := ⟨1, "order", ""⟩

def batch (key : String) : CounterRow := ⟨1, "batch", key⟩

def alone (i : ℕ) (c : Call) : List (Label ℕ Call) :=
  [.begin i, .call i c] ++ List.replicate 5 (.advance i) ++ [.commit i]

def after (labels : List (Label ℕ Call)) : Database :=
  labels.foldl (fun db => db.step (Call.body platform)) empty

/-- Two transactions number an order, and the first, for which the second waits, aborts. Two batches
are assigned, one of them twice, and another order is numbered. -/
def labels : List (Label ℕ Call) :=
  [.begin 1, .begin 2, .call 1 (.bumpCounter order), .call 2 (.bumpCounter order), .advance 1,
    .advance 2, .abort 1, .advance 2, .advance 2, .commit 2] ++
  alone 3 (.assignCounter (batch "a")) ++ alone 4 (.assignCounter (batch "b")) ++
  alone 5 (.assignCounter (batch "a")) ++ alone 6 (.bumpCounter order)

def callsOf (labels : List (Label ℕ Call)) : List Call :=
  labels.filterMap fun
    | .call _ c => some c
    | _ => none

lemma runs_after {calls : Call → Prop} {labels : List (Label ℕ Call)}
    (h : ∀ c ∈ callsOf labels, calls c) : Runs (Call.body platform) calls empty (after labels) := by
  refine Lib.Steps.foldl _ _ fun _ label hlabel i c hcall => h c ?_
  subst hcall
  exact mem_filterMap.2 ⟨_, hlabel, rfl⟩

theorem orders_and_batches_are_gapless :
    (after labels).log =
      [(.bumpCounter order, some 1), (.assignCounter (batch "a"), some 1),
        (.assignCounter (batch "b"), some 2), (.assignCounter (batch "a"), some 1),
        (.bumpCounter order, some 2)] ∧
    (∃ n, issued order (after labels).log = (List.range' 1 n).map some) ∧
    ∃ n, ∀ value, (∃ key, Assigned 1 "batch" (after labels).log key value) ↔
      1 ≤ value ∧ value ≤ n := by
  have hcalls : callsOf labels =
      [.bumpCounter order, .bumpCounter order, .assignCounter (batch "a"),
        .assignCounter (batch "b"), .assignCounter (batch "a"), .bumpCounter order] := rfl
  have hbump : Runs (Call.body platform) (OnlyBump order) empty (after labels) := by
    refine runs_after ?_
    simp [hcalls, OnlyBump, Call.written, order, batch, CounterRow.allocator]
  have hassign : Runs (Call.body platform) (OnlyAssign 1 "batch") empty (after labels) := by
    refine runs_after ?_
    simp [hcalls, OnlyAssign, Call.written, order, batch, CounterRow.allocator]
  obtain ⟨hissued, hassigned⟩ := counters_gapless platform (after labels)
  exact ⟨by decide +kernel, hissued order hbump, (hassigned 1 "batch" hassign).2.2.2.2⟩

/-- A counter is bumped for two keys, and then assigned for them. -/
def thenAssigned : List (Label ℕ Call) :=
  alone 1 (.bumpCounter (batch "a")) ++ alone 2 (.bumpCounter (batch "b")) ++
    alone 3 (.assignCounter (batch "a")) ++ alone 4 (.assignCounter (batch "b"))

/-- Both keys are assigned one value. -/
theorem bumped_keys_repeat :
    Runs (Call.body platform) (fun c => ∀ r value, c ≠ .setCounter r value) empty
      (after thenAssigned) ∧
    (after thenAssigned).log =
      [(.bumpCounter (batch "a"), some 1), (.bumpCounter (batch "b"), some 1),
        (.assignCounter (batch "a"), some 2), (.assignCounter (batch "b"), some 2)] := by
  have hcalls : callsOf thenAssigned =
      [.bumpCounter (batch "a"), .bumpCounter (batch "b"), .assignCounter (batch "a"),
        .assignCounter (batch "b")] := rfl
  refine ⟨runs_after ?_, by decide +kernel⟩
  simp [hcalls]

end Sample

end Wamn.Numbering
