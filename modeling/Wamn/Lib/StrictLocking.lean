import Mathlib.Logic.Function.Basic
import Wamn.Lib.Transition

/-!
# Transactions under locks that are held to their end

Transactions call procedures, which are sequences of statements. A statement takes locks, reads rows
(what is committed, under the transaction's own writes) and writes rows. Locks are held, and writes
are hidden from others, until the transaction ends.

Fix some rows, each with a lock that guards it, and the calls that work on them. If every statement
of such a call holds the guards of the rows it touches, and no other call writes one of the rows,
then the committed calls might as well have been made one after the other.
-/

namespace Wamn.Lib.Locking

open Option List Function

variable {ι ρ κ α τ β γ : Type}

/-- Rows by their keys. -/
abbrev Rows (κ α : Type) := κ → Option α

/-- A statement: the locks it waits for, the rows it touches, what it answers and writes, if
anything. -/
structure Statement (ρ κ α τ : Type) where
  locks : List ρ
  rows : List κ
  run : Rows κ α → Option (τ × List (κ × α))
  run_congr : ∀ {v w : Rows κ α}, (∀ r ∈ rows, v r = w r) → run v = run w
  mem_rows : ∀ {v : Rows κ α} {answer : τ} {writes : List (κ × α)},
    run v = some (answer, writes) → ∀ write ∈ writes, write.1 ∈ rows

/-- A procedure returns, raises an error, or performs a statement and goes on by its answer. -/
inductive Procedure (ρ κ α τ β : Type) where
  | ret (b : β)
  | raise
  | perform (s : Statement ρ κ α τ) (next : τ → Procedure ρ κ α τ β)

/-- The rows as a transaction with these writes sees them. -/
def overlay (writes store : Rows κ α) : Rows κ α := fun r => (writes r).or (store r)

lemma overlay_of_eq_none {writes store : Rows κ α} {r : κ} (h : writes r = none) :
    overlay writes store r = store r := by
  simp [overlay, h]

section Rows

variable [DecidableEq κ] {v w : Rows κ α} {writes : List (κ × α)} {r : κ}

/-- The rows after these writes. -/
def put (v : Rows κ α) : List (κ × α) → Rows κ α
  | [] => v
  | (r, a) :: writes => put (update v r (some a)) writes

lemma put_of_not_mem (h : ∀ write ∈ writes, write.1 ≠ r) : put v writes r = v r := by
  induction writes generalizing v with
  | nil => rfl
  | cons write writes ih =>
    obtain ⟨hwrite, hwrites⟩ := forall_mem_cons.1 h
    exact (ih hwrites).trans (update_of_ne hwrite.symm ..)

lemma put_congr (h : v r = w r) : put v writes r = put w writes r := by
  induction writes generalizing v w with
  | nil => exact h
  | cons write writes ih =>
    refine ih ?_
    by_cases hr : r = write.1
    · rw [hr, update_self, update_self]
    · rw [update_of_ne hr, update_of_ne hr, h]

lemma overlay_put {store : Rows κ α} :
    overlay (put v writes) store = put (overlay v store) writes := by
  induction writes generalizing v with
  | nil => rfl
  | cons write writes ih =>
    have hone : overlay (update v write.1 (some write.2)) store =
        update (overlay v store) write.1 (some write.2) := by
      funext r
      by_cases hr : r = write.1
      · subst hr
        simp [overlay]
      · simp [overlay, update_of_ne hr]
    rw [put, put, ← hone]
    exact ih

end Rows

/-! ## Serial executions -/

section Serial

variable [DecidableEq κ]

/-- The procedure run on its own. -/
def Procedure.exec : Procedure ρ κ α τ β → Rows κ α → Option (β × Rows κ α)
  | .ret b, v => some (b, v)
  | .raise, _ => none
  | .perform s next, v => (s.run v).bind fun done => (next done.1).exec (put v done.2)

/-- Calls with their results, made one after the other. -/
inductive Serial (body : γ → Procedure ρ κ α τ β) :
    Rows κ α → List (γ × β) → Rows κ α → Prop where
  | nil {v} : Serial body v [] v
  | cons {u v w c b calls} : (body c).exec u = some (b, v) → Serial body v calls w →
      Serial body u ((c, b) :: calls) w

variable {body : γ → Procedure ρ κ α τ β} {u v w : Rows κ α} {calls calls' : List (γ × β)}

lemma Serial.append (h : Serial body u calls v) (h' : Serial body v calls' w) :
    Serial body u (calls ++ calls') w := by
  induction h with
  | nil => exact h'
  | cons hcall _ ih => exact .cons hcall (ih h')

lemma Serial.invariant (I : List (γ × β) → Rows κ α → Prop) (h : Serial body u calls w)
    (hu : I [] u)
    (hstep : ∀ done u c b v, I done u → (c, b) ∈ calls → (body c).exec u = some (b, v) →
      I (done ++ [(c, b)]) v) : I calls w := by
  suffices hfrom : ∀ done, I done u → I (done ++ calls) w from hfrom [] hu
  clear hu
  induction h with
  | nil =>
    intro done hdone
    rwa [append_nil]
  | cons hcall _ ih =>
    intro done hdone
    have hnext := hstep _ _ _ _ _ hdone mem_cons_self hcall
    have hrest := ih (fun done u c b v hI hmem => hstep done u c b v hI (mem_cons_of_mem _ hmem))
      _ hnext
    rwa [append_assoc] at hrest

end Serial

/-! ## The machine -/

/-- An open transaction: what it wrote, the calls it has made, and the call it is in. -/
structure Tx (ρ κ α τ β γ : Type) where
  writes : Rows κ α := fun _ => none
  done : List (γ × β) := []
  current : Option (γ × Procedure ρ κ α τ β) := none

/-- The committed rows, the owners of locks, the open transactions, and the committed calls in
commit order. -/
structure Db (ι ρ κ α τ β γ : Type) where
  store : Rows κ α
  owner : ρ → Option ι
  txs : ι → Option (Tx ρ κ α τ β γ)
  log : List (γ × β)

/-- A database without open transactions. -/
def Db.idle (store : Rows κ α) (log : List (γ × β)) : Db ι ρ κ α τ β γ :=
  { store, owner := fun _ => none, txs := fun _ => none, log }

/-- What happens next, in which transaction. -/
inductive Label (ι γ : Type) where
  | begin (i : ι)
  | call (i : ι) (c : γ)
  | advance (i : ι)
  | commit (i : ι)
  | abort (i : ι)
  deriving DecidableEq

section Machine

variable [DecidableEq ι] [DecidableEq ρ] [DecidableEq κ]

namespace Db

variable (db : Db ι ρ κ α τ β γ) (i : ι)

/-- Replace one transaction. -/
def withTx (t : Option (Tx ρ κ α τ β γ)) : Db ι ρ κ α τ β γ :=
  { db with txs := update db.txs i t }

/-- No other transaction owns one of the locks. -/
def free (locks : List ρ) : Bool := locks.all fun l => db.owner l = none || db.owner l = some i

/-- The transaction owns the locks. -/
def acquire (locks : List ρ) : Db ι ρ κ α τ β γ :=
  { db with owner := fun l => if l ∈ locks then some i else db.owner l }

/-- The transaction ends and gives its locks back. -/
def close : Db ι ρ κ α τ β γ :=
  { db with
    owner := fun l => if db.owner l = some i then none else db.owner l
    txs := update db.txs i none }

/-- One step of a call: it returns, or its next statement runs once its locks are free. A failed
statement leaves only the abort. -/
def advance (t : Tx ρ κ α τ β γ) (c : γ) : Procedure ρ κ α τ β → Db ι ρ κ α τ β γ
  | .ret b => db.withTx i (some { t with done := t.done ++ [(c, b)], current := none })
  | .raise => db
  | .perform s next =>
    if db.free i s.locks then
      match s.run (overlay t.writes db.store) with
      | none => (db.acquire i s.locks).withTx i (some { t with current := some (c, .raise) })
      | some (answer, writes) =>
        (db.acquire i s.locks).withTx i
          (some { t with writes := put t.writes writes, current := some (c, next answer) })
    else db

/-- One step of the machine. A label that does not apply changes nothing. -/
def step (body : γ → Procedure ρ κ α τ β) : Label ι γ → Db ι ρ κ α τ β γ
  | .begin i =>
    match db.txs i with
    | none => db.withTx i (some {})
    | some _ => db
  | .call i c =>
    match db.txs i with
    | some { writes, done, current := none } =>
      db.withTx i (some { writes, done, current := some (c, body c) })
    | _ => db
  | .advance i =>
    match db.txs i with
    | some { writes, done, current := some (c, p) } =>
      db.advance i { writes, done, current := some (c, p) } c p
    | _ => db
  | .commit i =>
    match db.txs i with
    | some { writes, done, current := none } =>
      { db.close i with store := overlay writes db.store, log := db.log ++ done }
    | _ => db
  | .abort i =>
    match db.txs i with
    | some _ => db.close i
    | none => db

end Db

/-- The runs whose calls are all of the given kind. -/
def Runs (body : γ → Procedure ρ κ α τ β) (calls : γ → Prop) :
    Db ι ρ κ α τ β γ → Db ι ρ κ α τ β γ → Prop :=
  Steps (fun db => db.step body) fun _ label => ∀ i c, label = .call i c → calls c

end Machine

/-! ## Calls under the locks that guard their rows -/

section Discipline

variable (studied : κ → Prop) (guard : κ → ρ)

/-- Every statement touches studied rows only and holds their guards when it runs. -/
def Procedure.WellLocked : (ρ → Prop) → Procedure ρ κ α τ β → Prop
  | _, .ret _ => True
  | _, .raise => True
  | held, .perform s next =>
    (∀ r ∈ s.rows, studied r ∧ (guard r ∈ s.locks ∨ held (guard r))) ∧
      ∀ answer, (next answer).WellLocked fun l => l ∈ s.locks ∨ held l

/-- No statement writes a studied row. -/
def Procedure.Foreign : Procedure ρ κ α τ β → Prop
  | .ret _ => True
  | .raise => True
  | .perform s next =>
    (∀ v answer writes, s.run v = some (answer, writes) → ∀ write ∈ writes, ¬ studied write.1) ∧
      ∀ answer, (next answer).Foreign

variable {studied guard}

lemma Statement.not_studied_of_rows (s : Statement ρ κ α τ) (h : ∀ r ∈ s.rows, ¬ studied r)
    (v : Rows κ α) (answer : τ) (writes : List (κ × α)) (hrun : s.run v = some (answer, writes)) :
    ∀ write ∈ writes, ¬ studied write.1 :=
  fun write hwrite => h _ (s.mem_rows hrun write hwrite)

lemma Procedure.Foreign.exec_eq [DecidableEq κ] {p : Procedure ρ κ α τ β} (h : p.Foreign studied)
    {u v : Rows κ α} {b : β} (hexec : p.exec u = some (b, v)) {r : κ} (hr : studied r) :
    v r = u r := by
  induction p generalizing u with
  | ret _ =>
    obtain ⟨-, rfl⟩ := Prod.mk.inj (Option.some.inj hexec)
    rfl
  | raise => cases hexec
  | perform s next ih =>
    obtain ⟨done, hrun, hrest⟩ := bind_eq_some_iff.1 hexec
    rw [ih done.1 (h.2 done.1) hrest, put_of_not_mem]
    rintro write hwrite rfl
    exact h.1 u done.1 done.2 hrun write hwrite hr

lemma Procedure.WellLocked.mono {held held' : ρ → Prop} {p : Procedure ρ κ α τ β}
    (h : p.WellLocked studied guard held) (himp : ∀ l, held l → held' l) :
    p.WellLocked studied guard held' := by
  induction p generalizing held held' with
  | ret _ | raise => trivial
  | perform s next ih =>
    refine ⟨fun r hr => ⟨(h.1 r hr).1, (h.1 r hr).2.imp_right (himp _)⟩, fun answer => ?_⟩
    exact ih answer (h.2 answer) fun l hl => hl.imp_right (himp l)

end Discipline

/-- What a transaction does on its own from the rows `v`, touching rows of `Q` only: the calls it
has made, the call it is in, and the rows it sees. -/
inductive Trace [DecidableEq κ] (body : γ → Procedure ρ κ α τ β) (Q : κ → Prop) (v : Rows κ α) :
    List (γ × β) → Option (γ × Procedure ρ κ α τ β) → Rows κ α → Prop where
  | start : Trace body Q v [] none v
  | call {done w c} : Trace body Q v done none w → Trace body Q v done (some (c, body c)) w
  | perform {done w c s next answer writes} : Trace body Q v done (some (c, .perform s next)) w →
      (∀ r ∈ s.rows, Q r) → s.run w = some (answer, writes) →
      Trace body Q v done (some (c, next answer)) (put w writes)
  | fail {done w c s next} : Trace body Q v done (some (c, .perform s next)) w →
      (∀ r ∈ s.rows, Q r) → s.run w = none → Trace body Q v done (some (c, .raise)) w
  | ret {done w c b} : Trace body Q v done (some (c, .ret b)) w →
      Trace body Q v (done ++ [(c, b)]) none w

namespace Trace

variable [DecidableEq κ] {body : γ → Procedure ρ κ α τ β} {Q Q' : κ → Prop} {v v' w : Rows κ α}
  {done : List (γ × β)} {current : Option (γ × Procedure ρ κ α τ β)}

variable (h : Trace body Q v done current w)

include h

lemma mono (hQ : ∀ r, Q r → Q' r) : Trace body Q' v done current w := by
  induction h with
  | start => exact .start
  | call _ ih => exact .call ih
  | perform _ hrows hrun ih => exact .perform ih (fun r hr => hQ r (hrows r hr)) hrun
  | fail _ hrows hrun ih => exact .fail ih (fun r hr => hQ r (hrows r hr)) hrun
  | ret _ ih => exact .ret ih

lemma agree (hv : ∀ r, Q r → v r = v' r) :
    ∃ w', Trace body Q v' done current w' ∧ (∀ r, Q r → w r = w' r) ∧
      ∀ r, ¬ Q r → w' r = v' r := by
  induction h with
  | start => exact ⟨v', .start, hv, fun _ _ => rfl⟩
  | call _ ih =>
    obtain ⟨w', htrace, hin, hout⟩ := ih
    exact ⟨w', .call htrace, hin, hout⟩
  | @perform done w c s next answer writes _ hrows hrun ih =>
    obtain ⟨w', htrace, hin, hout⟩ := ih
    have hrun' : s.run w' = some (answer, writes) := by
      rw [← hrun]
      exact s.run_congr fun r hr => (hin r (hrows r hr)).symm
    refine ⟨put w' writes, .perform htrace hrows hrun', fun r hr => put_congr (hin r hr),
      fun r hr => ?_⟩
    rw [put_of_not_mem, hout r hr]
    -- A statement writes only rows that it touches.
    rintro write hwrite rfl
    exact hr (hrows _ (s.mem_rows hrun write hwrite))
  | @fail done w c s next _ hrows hrun ih =>
    obtain ⟨w', htrace, hin, hout⟩ := ih
    have hrun' : s.run w' = none := by
      rw [← hrun]
      exact s.run_congr fun r hr => (hin r (hrows r hr)).symm
    exact ⟨w', .fail htrace hrows hrun', hin, hout⟩
  | ret _ ih =>
    obtain ⟨w', htrace, hin, hout⟩ := ih
    exact ⟨w', .ret htrace, hin, hout⟩

lemma serial :
    ∃ u, Serial body v done u ∧ (current = none → u = w) ∧
      ∀ c p, current = some (c, p) → (body c).exec u = p.exec w := by
  induction h with
  | start => exact ⟨v, .nil, fun _ => rfl, nofun⟩
  | call _ ih =>
    obtain ⟨u, hserial, hrows, -⟩ := ih
    obtain rfl := hrows rfl
    refine ⟨u, hserial, nofun, ?_⟩
    rintro c p ⟨⟩
    rfl
  | perform _ _ hrun ih =>
    obtain ⟨u, hserial, -, hresume⟩ := ih
    refine ⟨u, hserial, nofun, ?_⟩
    rintro c p ⟨⟩
    rw [hresume _ _ rfl, Procedure.exec, hrun, bind_some]
  | fail _ _ hrun ih =>
    obtain ⟨u, hserial, -, hresume⟩ := ih
    refine ⟨u, hserial, nofun, ?_⟩
    rintro c p ⟨⟩
    simp [hresume _ _ rfl, Procedure.exec, hrun]
  | ret _ ih =>
    obtain ⟨u, hserial, -, hresume⟩ := ih
    exact ⟨_, hserial.append (.cons (hresume _ _ rfl) .nil), fun _ => rfl, nofun⟩

end Trace

/-! ## Committed calls are serial -/

section Study

variable [DecidableEq κ]

variable (body : γ → Procedure ρ κ α τ β) (studied : κ → Prop) (guard : κ → ρ) (study : γ → Bool)

/-- As far as studied calls and rows go, an open transaction might have run on its own from the
committed rows, and it holds the guards of what it touched. -/
structure Accounted (store : Rows κ α) (owner : ρ → Option ι) (i : ι) (t : Tx ρ κ α τ β γ) :
    Prop where
  traced : ∃ w, Trace body (fun r => studied r ∧ owner (guard r) = some i) store
    (t.done.filter fun call => study call.1) (t.current.filter fun call => study call.1) w ∧
      ∀ r, studied r → w r = overlay t.writes store r
  locked : ∀ c p, t.current = some (c, p) → study c = true →
    p.WellLocked studied guard fun l => owner l = some i
  foreign : ∀ c p, t.current = some (c, p) → study c = false → p.Foreign studied
  written : ∀ r, studied r → t.writes r ≠ none → owner (guard r) = some i

/-- Every open transaction is accounted for, and the committed calls are a serial execution that
ends in the committed rows. -/
structure Sound (start : Rows κ α) (db : Db ι ρ κ α τ β γ) : Prop where
  txs : ∀ i t, db.txs i = some t → Accounted body studied guard study db.store db.owner i t
  log : ∃ s, Serial body start (db.log.filter fun call => study call.1) s ∧
    ∀ r, studied r → s r = db.store r

variable {body studied guard study}

variable {store store' : Rows κ α} {owner owner' : ρ → Option ι} {i j : ι} {t : Tx ρ κ α τ β γ}

lemma accounted_empty : Accounted body studied guard study store owner i {} where
  traced := ⟨store, .start, fun _ _ => rfl⟩
  locked := nofun
  foreign := nofun
  written _ _ h := absurd rfl h

lemma Accounted.frame (h : Accounted body studied guard study store owner j t)
    (howner : ∀ l, owner' l = some j ↔ owner l = some j)
    (hstore : ∀ r, studied r → owner (guard r) = some j → store' r = store r) :
    Accounted body studied guard study store' owner' j t where
  traced := by
    obtain ⟨w, htrace, hw⟩ := h.traced
    obtain ⟨w', htrace', hin, hout⟩ := htrace.agree fun r hr => (hstore r hr.1 hr.2).symm
    refine ⟨w', htrace'.mono fun r hr => ⟨hr.1, (howner _).2 hr.2⟩, fun r hr => ?_⟩
    by_cases hheld : owner (guard r) = some j
    · rw [← hin r ⟨hr, hheld⟩, hw r hr, overlay, overlay, hstore r hr hheld]
    · -- A row without its guard was not written, so the transaction sees the committed one.
      have hnone : t.writes r = none := by
        by_contra hne
        exact hheld (h.written r hr hne)
      rw [hout r fun hr => hheld hr.2, overlay_of_eq_none hnone]
  locked c p hcurrent hc := (h.locked c p hcurrent hc).mono fun l hl => (howner l).2 hl
  foreign := h.foreign
  written r hr hne := (howner _).2 (h.written r hr hne)

lemma Accounted.call {c : γ} (h : Accounted body studied guard study store owner i t)
    (hcurrent : t.current = none)
    (hown : study c = true → (body c).WellLocked studied guard fun _ => False)
    (hforeign : study c = false → (body c).Foreign studied) :
    Accounted body studied guard study store owner i { t with current := some (c, body c) } where
  traced := by
    obtain ⟨w, htrace, hw⟩ := h.traced
    rw [hcurrent, filter_none] at htrace
    refine ⟨w, ?_, hw⟩
    rw [filter_some]
    split
    · exact .call htrace
    · exact htrace
  locked := by
    rintro c p ⟨⟩ hc
    exact (hown hc).mono fun _ h => h.elim
  foreign := by
    rintro c p ⟨⟩ hc
    exact hforeign hc
  written := h.written

lemma Accounted.ret {c : γ} {b : β} (h : Accounted body studied guard study store owner i t)
    (hcurrent : t.current = some (c, .ret b)) :
    Accounted body studied guard study store owner i
      { t with done := t.done ++ [(c, b)], current := none } where
  traced := by
    obtain ⟨w, htrace, hw⟩ := h.traced
    refine ⟨w, ?_, hw⟩
    rw [hcurrent, filter_some] at htrace
    rw [filter_append, filter_cons, filter_nil, filter_none]
    cases hc : study c with
    | true =>
      rw [hc] at htrace
      exact .ret htrace
    | false =>
      rw [hc] at htrace
      simpa using htrace
  locked := nofun
  foreign := nofun
  written := h.written

section Perform

variable [DecidableEq ρ] {c : γ} {s : Statement ρ κ α τ} {next : τ → Procedure ρ κ α τ β}

lemma owner_acquire {locks : List ρ} {l : ρ} :
    (if l ∈ locks then some i else owner l) = some i ↔ l ∈ locks ∨ owner l = some i := by
  split
  · simp_all
  · simp_all

lemma Accounted.fail (h : Accounted body studied guard study store owner i t)
    (hcurrent : t.current = some (c, .perform s next))
    (hrun : s.run (overlay t.writes store) = none) :
    Accounted body studied guard study store (fun l => if l ∈ s.locks then some i else owner l) i
      { t with current := some (c, .raise) } where
  traced := by
    obtain ⟨w, htrace, hw⟩ := h.traced
    have hkept : ∀ r, studied r ∧ owner (guard r) = some i →
        studied r ∧ (if guard r ∈ s.locks then some i else owner (guard r)) = some i :=
      fun r hr => ⟨hr.1, owner_acquire.2 (.inr hr.2)⟩
    have htrace := htrace.mono hkept
    refine ⟨w, ?_, hw⟩
    rw [hcurrent, filter_some] at htrace
    rw [filter_some]
    cases hc : study c with
    | false => simpa [hc] using htrace
    | true =>
      have hrows := (h.locked c _ hcurrent hc).1
      rw [hc] at htrace
      refine .fail htrace (fun r hr => ⟨(hrows r hr).1, owner_acquire.2 (hrows r hr).2⟩) ?_
      rw [← hrun]
      exact s.run_congr fun r hr => hw r (hrows r hr).1
  locked := by
    rintro c p ⟨⟩ _
    trivial
  foreign := by
    rintro c p ⟨⟩ _
    trivial
  written r hr hne := owner_acquire.2 (.inr (h.written r hr hne))

lemma Accounted.perform {answer : τ} {writes : List (κ × α)}
    (h : Accounted body studied guard study store owner i t)
    (hcurrent : t.current = some (c, .perform s next))
    (hrun : s.run (overlay t.writes store) = some (answer, writes)) :
    Accounted body studied guard study store (fun l => if l ∈ s.locks then some i else owner l) i
      { t with writes := put t.writes writes, current := some (c, next answer) } where
  traced := by
    obtain ⟨w, htrace, hw⟩ := h.traced
    have hkept : ∀ r, studied r ∧ owner (guard r) = some i →
        studied r ∧ (if guard r ∈ s.locks then some i else owner (guard r)) = some i :=
      fun r hr => ⟨hr.1, owner_acquire.2 (.inr hr.2)⟩
    have htrace := htrace.mono hkept
    rw [hcurrent, filter_some] at htrace
    rw [filter_some]
    simp only [overlay_put]
    cases hc : study c with
    | false =>
      -- A statement of another call writes no studied row.
      refine ⟨w, by simpa [hc] using htrace, fun r hr => ?_⟩
      rw [hw r hr, put_of_not_mem]
      rintro write hwrite rfl
      exact (h.foreign c _ hcurrent hc).1 _ _ _ hrun write hwrite hr
    | true =>
      have hrows := (h.locked c _ hcurrent hc).1
      rw [hc] at htrace
      have hrun' : s.run w = some (answer, writes) := by
        rw [← hrun]
        exact s.run_congr fun r hr => hw r (hrows r hr).1
      exact ⟨put w writes,
        .perform htrace (fun r hr => ⟨(hrows r hr).1, owner_acquire.2 (hrows r hr).2⟩) hrun',
        fun r hr => put_congr (hw r hr)⟩
  locked := by
    rintro c' p ⟨⟩ hc
    exact ((h.locked c _ hcurrent hc).2 answer).mono fun l hl => owner_acquire.2 hl
  foreign := by
    rintro c' p ⟨⟩ hc
    exact (h.foreign c _ hcurrent hc).2 answer
  written r hr hne := by
    by_cases hwritten : ∃ write ∈ writes, write.1 = r
    · obtain ⟨write, hwrite, rfl⟩ := hwritten
      -- The row was written by this statement, so the call is a studied one and holds the guard.
      cases hc : study c with
      | false => exact absurd hr ((h.foreign c _ hcurrent hc).1 _ _ _ hrun write hwrite)
      | true =>
        have hrows := (h.locked c _ hcurrent hc).1
        exact owner_acquire.2 (hrows _ (s.mem_rows hrun write hwrite)).2
    · have hkeep : put t.writes writes r = t.writes r :=
        put_of_not_mem fun write hwrite heq => hwritten ⟨write, hwrite, heq⟩
      exact owner_acquire.2 (.inr (h.written r hr (hkeep ▸ hne)))

end Perform

section Step

variable [DecidableEq ι] {db : Db ι ρ κ α τ β γ} {start : Rows κ α}

lemma Sound.withTx (h : Sound body studied guard study start db)
    (howner : ∀ j, j ≠ i → ∀ l, owner' l = some j ↔ db.owner l = some j)
    (ht : Accounted body studied guard study db.store owner' i t) :
    Sound body studied guard study start ({ db with owner := owner' }.withTx i (some t)) where
  txs j t' hj := by
    by_cases hij : j = i
    · subst hij
      obtain rfl : t = t' := by simpa [Db.withTx] using hj
      exact ht
    · have hj' : db.txs j = some t' := by simpa [Db.withTx, hij] using hj
      exact (h.txs j t' hj').frame (howner j hij) fun _ _ _ => rfl
  log := h.log

omit [DecidableEq κ] in
lemma owner_close_other (hij : j ≠ i) (l : ρ) :
    (if db.owner l = some i then none else db.owner l) = some j ↔ db.owner l = some j := by
  split
  · rename_i hl
    simp [hl, hij.symm]
  · rfl

lemma Sound.abort (h : Sound body studied guard study start db) :
    Sound body studied guard study start (db.close i) where
  txs j t hj := by
    by_cases hij : j = i
    · subst hij
      simp [Db.close] at hj
    · have hj' : db.txs j = some t := by simpa [Db.close, hij] using hj
      exact (h.txs j t hj').frame (owner_close_other hij) fun _ _ _ => rfl
  log := h.log

lemma Sound.commit (h : Sound body studied guard study start db) (ht : db.txs i = some t)
    (hcurrent : t.current = none) :
    Sound body studied guard study start
      { db.close i with store := overlay t.writes db.store, log := db.log ++ t.done } where
  txs j t' hj := by
    by_cases hij : j = i
    · subst hij
      simp [Db.close] at hj
    · have hj' : db.txs j = some t' := by simpa [Db.close, hij] using hj
      refine (h.txs j t' hj').frame (owner_close_other hij) fun r hr hheld => ?_
      -- The row is guarded by the other transaction, so this one did not write it.
      have hnone : t.writes r = none := by
        by_contra hne
        have howner := (h.txs i t ht).written r hr hne
        exact hij (mem_unique hheld howner)
      exact overlay_of_eq_none hnone
  log := by
    obtain ⟨s, hserial, hs⟩ := h.log
    obtain ⟨w, htrace, hw⟩ := (h.txs i t ht).traced
    obtain ⟨w', htrace', hin, hout⟩ := htrace.agree fun r hr => (hs r hr.1).symm
    rw [hcurrent, filter_none] at htrace'
    obtain ⟨u, hcalls, hu, -⟩ := htrace'.serial
    obtain rfl := hu rfl
    refine ⟨u, ?_, fun r hr => ?_⟩
    · rw [filter_append]
      exact hserial.append hcalls
    · by_cases hheld : db.owner (guard r) = some i
      · rw [← hin r ⟨hr, hheld⟩, hw r hr]
      · have hnone : t.writes r = none := by
          by_contra hne
          exact hheld ((h.txs i t ht).written r hr hne)
        exact (hout r fun hr => hheld hr.2).trans ((hs r hr).trans (overlay_of_eq_none hnone).symm)

variable [DecidableEq ρ] {calls : γ → Prop}

omit [DecidableEq κ] in
lemma owner_acquire_other {locks : List ρ} (hfree : db.free i locks = true) (hij : j ≠ i)
    (l : ρ) :
    (if l ∈ locks then some i else db.owner l) = some j ↔ db.owner l = some j := by
  split
  · rename_i hl
    have hl := all_eq_true.1 hfree l hl
    simp only [Bool.or_eq_true, decide_eq_true_eq] at hl
    rcases hl with hl | hl
    · simp [hl, hij.symm]
    · simp [hl]
  · rfl

lemma Sound.advance {c : γ} {p : Procedure ρ κ α τ β}
    (h : Sound body studied guard study start db) (ht : db.txs i = some t)
    (hcurrent : t.current = some (c, p)) :
    Sound body studied guard study start (db.advance i t c p) := by
  have hacc := h.txs i t ht
  cases p with
  | ret b => exact h.withTx (fun _ _ _ => Iff.rfl) (hacc.ret hcurrent)
  | raise => exact h
  | perform s next =>
    rw [Db.advance]
    split
    · rename_i hfree
      cases hrun : s.run (overlay t.writes db.store) with
      | none =>
        exact h.withTx (fun j hj l => owner_acquire_other hfree hj l) (hacc.fail hcurrent hrun)
      | some done =>
        exact h.withTx (fun j hj l => owner_acquire_other hfree hj l) (hacc.perform hcurrent hrun)
    · exact h

lemma Sound.step
    (hown : ∀ c, calls c → study c = true → (body c).WellLocked studied guard fun _ => False)
    (hforeign : ∀ c, calls c → study c = false → (body c).Foreign studied)
    (h : Sound body studied guard study start db) {label : Label ι γ}
    (hlabel : ∀ i c, label = .call i c → calls c) :
    Sound body studied guard study start (db.step body label) := by
  cases label with
  | begin i =>
    rw [Db.step]
    split
    · exact h.withTx (fun _ _ _ => Iff.rfl) accounted_empty
    · exact h
  | call i c =>
    have hc := hlabel i c rfl
    rw [Db.step]
    split
    · rename_i ht
      exact h.withTx (fun _ _ _ => Iff.rfl) ((h.txs i _ ht).call rfl (hown c hc) (hforeign c hc))
    · exact h
  | advance i =>
    rw [Db.step]
    split
    · rename_i ht
      exact h.advance ht rfl
    · exact h
  | commit i =>
    rw [Db.step]
    split
    · rename_i ht
      exact h.commit ht rfl
    · exact h
  | abort i =>
    rw [Db.step]
    split
    · exact h.abort
    · exact h

variable (studied guard study) in
/-- The committed calls on the studied rows are, in commit order, a serial execution that ends in
the committed rows. -/
theorem serial_of_run
    (hown : ∀ c, calls c → study c = true → (body c).WellLocked studied guard fun _ => False)
    (hforeign : ∀ c, calls c → study c = false → (body c).Foreign studied)
    (hrun : Runs body calls (Db.idle start []) db) :
    ∃ s, Serial body start (db.log.filter fun call => study call.1) s ∧
      ∀ r, studied r → s r = db.store r := by
  have hstart : Sound body studied guard study start (Db.idle start [] : Db ι ρ κ α τ β γ) :=
    ⟨nofun, start, .nil, fun _ _ => rfl⟩
  exact (hrun.invariant (fun _ _ h hlabel => h.step hown hforeign hlabel) hstart).log

end Step

end Study

end Wamn.Lib.Locking
