import Mathlib.Data.List.Range
import Wamn.Cdc.Drain
import Wamn.Lib.Transition

/-!
# Publishing a transaction

The messages of a transaction are sent in the order of its rows, without waiting for the
acknowledgment of each. The acknowledgments are held in that order and settled whenever as many are
held as may be in flight, and at the end. A send or settle that fails ends the pass; the next one
starts at the first row that is not acknowledged, and so on until every row is or the reader is
cancelled.

A publication is a machine that asks its publisher one thing at a time: it stops where the source
awaits something or looks at the cancellation token, and a `Reply` says how that went. What is
known about an acknowledgment that is held is up to the publisher.
-/

namespace Wamn.Cdc

open List Lib

structure PublishAcknowledgment where
  duplicate : Bool
  deriving DecidableEq

def maxInFlight : ℕ := 256

inductive Phase where
  /-- `publish_txn` is about to start a pass. -/
  | attempt
  /-- `publish_pass` is about to send a row. -/
  | pass
  /-- `settle_all` is about to settle an acknowledgment, in the middle of the pass or, at `last`,
  at its end. -/
  | settling (last : Bool)
  /-- The pass has failed, and `publish_txn` waits before the next one. -/
  | backoff
  | done (outcome : PublishOutcome)

/-- A publication over the held acknowledgments `A` of some publisher. -/
structure Pipeline (A : Type) where
  firstUnacked : ℕ
  /-- The row that the pass comes to next. -/
  idx : ℕ
  /-- The rows that are sent and not settled, in the order they were sent. -/
  held : List (ℕ × A)
  tally : PublishTally
  phase : Phase

/-- What the publication finds where it stops: whether the token is cancelled, and how a send or a
settle went. -/
structure Reply (A : Type) where
  cancelled : Bool
  sent : Option A
  settled : Option PublishAcknowledgment

namespace Pipeline

variable {A : Type}

def start : Pipeline A := ⟨0, 0, [], ⟨0, 0⟩, .attempt⟩

variable (p : Pipeline A) (n bound : ℕ)

/-- A pass starts at the first unacknowledged row, unless the token is cancelled. -/
def publishTxn (reply : Reply A) : Pipeline A :=
  if reply.cancelled then { p with phase := .done .cancelledMidRetry }
  else { p with idx := p.firstUnacked, held := [], phase := .pass }

/-- The next of `n` rows is sent, and its acknowledgment is held. -/
def publishPass (p : Pipeline A) (reply : Reply A) : Pipeline A :=
  if p.idx < n then
    if reply.cancelled then { p with phase := .done .cancelledMidRetry }
    else match reply.sent with
      | none => { p with held := [], phase := .backoff }
      | some ack =>
        let held := p.held ++ [(p.idx, ack)]
        { p with
          idx := p.idx + 1
          held := held
          phase := if bound ≤ held.length then .settling false else .pass }
  else { p with phase := .settling true }

/-- The oldest of the held acknowledgments is settled. -/
def settleAll (last : Bool) (reply : Reply A) : Pipeline A :=
  match p.held with
  | [] => { p with phase := if last then .done (.acked p.tally) else .pass }
  | (idx, _) :: held =>
    match reply.settled with
    -- The acknowledgments that are still held are dropped with the pass.
    | none => { p with held := [], phase := .backoff }
    | some ack => { p with
        firstUnacked := idx + 1
        held := held
        tally := ⟨p.tally.published + 1, p.tally.deduped + if ack.duplicate then 1 else 0⟩ }

/-- The wait after a failed pass ends, or the token is cancelled. -/
def waitToRetry (reply : Reply A) : Pipeline A :=
  { p with phase := if reply.cancelled then .done .cancelledMidRetry else .attempt }

def step (p : Pipeline A) (reply : Reply A) : Pipeline A :=
  match p.phase with
  | .attempt => p.publishTxn reply
  | .pass => p.publishPass n bound reply
  | .settling last => p.settleAll last reply
  | .backoff => p.waitToRetry reply
  | .done _ => p

/-- The row that is sent next, if the token is not cancelled. -/
def sending (n : ℕ) (p : Pipeline A) : Option ℕ :=
  match p.phase with
  | .pass => if p.idx < n then some p.idx else none
  | _ => none

/-- The row whose acknowledgment is settled next, with what is known about it. -/
def settling : Option (ℕ × A) :=
  match p.phase with
  | .settling _ => p.held.head?
  | _ => none

/-! ## What a step does -/

inductive Moves (n bound : ℕ) (p : Pipeline A) (reply : Reply A) : Pipeline A → Prop where
  /-- The token is looked at before a pass, before a row is sent and while the next pass is waited
  for, but not where acknowledgments settle. -/
  | cancelled (hphase : p.phase = .attempt ∨ p.phase = .pass ∧ p.idx < n ∨ p.phase = .backoff)
      (hcancelled : reply.cancelled = true) :
      Moves n bound p reply { p with phase := .done .cancelledMidRetry }
  | started (hphase : p.phase = .attempt) (hcancelled : reply.cancelled = false) :
      Moves n bound p reply { p with idx := p.firstUnacked, held := [], phase := .pass }
  | sent (ack : A) (hphase : p.phase = .pass) (hlt : p.idx < n)
      (hcancelled : reply.cancelled = false) (hsent : reply.sent = some ack) :
      Moves n bound p reply { p with
        idx := p.idx + 1
        held := p.held ++ [(p.idx, ack)]
        phase := if bound ≤ (p.held ++ [(p.idx, ack)]).length then .settling false else .pass }
  | unsent (hphase : p.phase = .pass) (hlt : p.idx < n) (hcancelled : reply.cancelled = false)
      (hsent : reply.sent = none) :
      Moves n bound p reply { p with held := [], phase := .backoff }
  | sentAll (hphase : p.phase = .pass) (hge : n ≤ p.idx) :
      Moves n bound p reply { p with phase := .settling true }
  | settled (last : Bool) (row : ℕ) (ack : A) (held : List (ℕ × A))
      (acknowledgment : PublishAcknowledgment) (hphase : p.phase = .settling last)
      (hheld : p.held = (row, ack) :: held) (hsettled : reply.settled = some acknowledgment) :
      Moves n bound p reply { p with
        firstUnacked := row + 1
        held := held
        tally := ⟨p.tally.published + 1,
          p.tally.deduped + if acknowledgment.duplicate then 1 else 0⟩ }
  | unsettled (last : Bool) (hphase : p.phase = .settling last) (hheld : p.held ≠ [])
      (hsettled : reply.settled = none) :
      Moves n bound p reply { p with held := [], phase := .backoff }
  | settledAll (last : Bool) (hphase : p.phase = .settling last) (hheld : p.held = []) :
      Moves n bound p reply { p with phase := if last then .done (.acked p.tally) else .pass }
  | retried (hphase : p.phase = .backoff) (hcancelled : reply.cancelled = false) :
      Moves n bound p reply { p with phase := .attempt }
  | ended (outcome : PublishOutcome) (hphase : p.phase = .done outcome) : Moves n bound p reply p

lemma moves_step (p : Pipeline A) (reply : Reply A) :
    Moves n bound p reply (p.step n bound reply) := by
  unfold step
  split
  · rename_i hphase
    unfold publishTxn
    split
    · rename_i hcancelled
      exact .cancelled (.inl hphase) hcancelled
    · rename_i hcancelled
      exact .started hphase (Bool.eq_false_iff.2 hcancelled)
  · rename_i hphase
    unfold publishPass
    split
    · rename_i hlt
      split
      · rename_i hcancelled
        exact .cancelled (.inr (.inl ⟨hphase, hlt⟩)) hcancelled
      · rename_i hcancelled
        split
        · rename_i hsent
          exact .unsent hphase hlt (Bool.eq_false_iff.2 hcancelled) hsent
        · rename_i ack hsent
          exact .sent ack hphase hlt (Bool.eq_false_iff.2 hcancelled) hsent
    · rename_i hge
      exact .sentAll hphase (Nat.le_of_not_lt hge)
  · rename_i last hphase
    unfold settleAll
    split
    · rename_i hheld
      exact .settledAll last hphase hheld
    · rename_i row ack held hheld
      split
      · rename_i hsettled
        exact .unsettled last hphase (by simp [hheld]) hsettled
      · rename_i acknowledgment hsettled
        exact .settled last row ack held acknowledgment hphase hheld hsettled
  · rename_i hphase
    unfold waitToRetry
    by_cases hcancelled : reply.cancelled = true
    · rw [if_pos hcancelled]
      exact .cancelled (.inr (.inr hphase)) hcancelled
    · rw [if_neg hcancelled]
      exact .retried hphase (Bool.eq_false_iff.2 hcancelled)
  · rename_i outcome hphase
    exact .ended outcome hphase

end Pipeline

/-! ## The rows of a publication -/

/-- What a phase of a publication of `n` rows says about the rows that are acknowledged and held,
and about the row that the pass comes to next. -/
def Phase.Fits (n acked held idx : ℕ) : Phase → Prop
  | .attempt => acked ≤ n ∧ held = 0
  | .pass => idx = acked + held ∧ idx ≤ n
  | .settling last => idx = acked + held ∧ idx ≤ n ∧ (last = true → idx = n)
  -- `publish_txn` reports the row that the next pass starts from, so there has to be one.
  | .backoff => acked < n ∧ held = 0
  | .done (.acked tally) => acked = n ∧ tally.published = n
  | .done .cancelledMidRetry => acked ≤ n

namespace Pipeline

variable {A : Type}

/-- What holds of a publication of `n` rows wherever it stops. -/
structure Valid (n : ℕ) (p : Pipeline A) : Prop where
  /-- The held rows follow the acknowledged ones, in order. -/
  rows : p.held.map Prod.fst = List.range' p.firstUnacked p.held.length
  /-- No acknowledgment is counted twice. -/
  counted : p.tally.published = p.firstUnacked
  fits : p.phase.Fits n p.firstUnacked p.held.length p.idx

variable {n bound : ℕ} {p : Pipeline A}

lemma valid_start : (start : Pipeline A).Valid n := ⟨rfl, rfl, Nat.zero_le n, rfl⟩

lemma Valid.firstUnacked_le (h : p.Valid n) : p.firstUnacked ≤ n := by
  have hfits := h.fits
  unfold Phase.Fits at hfits
  split at hfits <;> omega

variable {ack : A} {row : ℕ}

lemma Valid.sent (h : p.Valid n) (hphase : p.phase = .pass) (hlt : p.idx < n) : Valid n { p with
      idx := p.idx + 1
      held := p.held ++ [(p.idx, ack)]
      phase := if bound ≤ (p.held ++ [(p.idx, ack)]).length then .settling false else .pass } := by
  obtain ⟨hrows, hcounted, hfits⟩ := h
  rw [hphase] at hfits
  obtain ⟨hidx, hle⟩ := hfits
  have hlength : (p.held ++ [(p.idx, ack)]).length = p.held.length + 1 := length_append
  have hrows' : (p.held ++ [(p.idx, ack)]).map Prod.fst =
      List.range' p.firstUnacked (p.held ++ [(p.idx, ack)]).length := by
    rw [map_append, hrows, hlength, range'_concat, Nat.one_mul, ← hidx,
      map_singleton]
  refine ⟨hrows', hcounted, ?_⟩
  show Phase.Fits n p.firstUnacked (p.held ++ [(p.idx, ack)]).length (p.idx + 1)
    (if bound ≤ (p.held ++ [(p.idx, ack)]).length then .settling false else .pass)
  rw [hlength]
  by_cases hfull : bound ≤ p.held.length + 1
  · rw [if_pos hfull]
    exact ⟨by omega, by omega, fun hlast => by cases hlast⟩
  · rw [if_neg hfull]
    exact ⟨by omega, by omega⟩

lemma Valid.head_held {held : List (ℕ × A)} (h : p.Valid n)
    (hheld : p.held = (row, ack) :: held) :
    row = p.firstUnacked ∧ held.map Prod.fst = List.range' (row + 1) held.length := by
  have hrows := h.rows
  rw [hheld, map_cons, length_cons, range'_succ, List.cons.injEq] at hrows
  obtain ⟨hrow, hrest⟩ := hrows
  have hrow : row = p.firstUnacked := hrow
  exact ⟨hrow, by rw [hrest, hrow]⟩

lemma Valid.step (h : p.Valid n) (reply : Reply A) : (p.step n bound reply).Valid n := by
  have hfits := h.fits
  have hmoves := moves_step n bound p reply
  generalize p.step n bound reply = p' at hmoves ⊢
  cases hmoves with
  | cancelled => exact ⟨h.rows, h.counted, h.firstUnacked_le⟩
  | started => exact ⟨rfl, h.counted, rfl, h.firstUnacked_le⟩
  | sent ack hphase hlt => exact h.sent hphase hlt
  | unsent hphase hlt =>
    rw [hphase] at hfits
    obtain ⟨hidx, -⟩ := hfits
    exact ⟨rfl, h.counted, show p.firstUnacked < n by omega, rfl⟩
  | sentAll hphase hge =>
    rw [hphase] at hfits
    obtain ⟨hidx, hle⟩ := hfits
    exact ⟨h.rows, h.counted, hidx, hle, fun _ => show p.idx = n by omega⟩
  | settled last row ack held acknowledgment hphase hheld =>
    obtain ⟨hrow, hrest⟩ := h.head_held hheld
    have hcounted := h.counted
    rw [hphase, hheld, length_cons] at hfits
    obtain ⟨hidx, hle, hlast⟩ := hfits
    refine ⟨hrest, show p.tally.published + 1 = row + 1 by omega, ?_⟩
    show Phase.Fits n (row + 1) held.length p.idx p.phase
    rw [hphase]
    exact ⟨by omega, hle, hlast⟩
  | unsettled last hphase hheld =>
    -- Some row is held, so not all of them are acknowledged.
    have hpos := length_pos_of_ne_nil hheld
    rw [hphase] at hfits
    obtain ⟨hidx, hle, -⟩ := hfits
    exact ⟨rfl, h.counted, show p.firstUnacked < n by omega, rfl⟩
  | settledAll last hphase hheld =>
    have hcounted := h.counted
    rw [hphase, hheld, length_nil] at hfits
    obtain ⟨hidx, hle, hlast⟩ := hfits
    refine ⟨h.rows, hcounted, ?_⟩
    show Phase.Fits n p.firstUnacked p.held.length p.idx
      (if last then .done (.acked p.tally) else .pass)
    rw [hheld, length_nil]
    cases last with
    | true =>
      have hall : p.idx = n := hlast rfl
      exact ⟨by omega, by omega⟩
    | false => exact ⟨hidx, hle⟩
  | retried hphase =>
    rw [hphase] at hfits
    exact ⟨h.rows, h.counted, h.firstUnacked_le, hfits.2⟩
  | ended => exact h

lemma sending_eq_some : p.sending n = some row ↔ p.phase = .pass ∧ p.idx = row ∧ p.idx < n := by
  unfold sending
  split
  · rename_i hphase
    by_cases hlt : p.idx < n
    · rw [if_pos hlt, Option.some.injEq]
      simp [hphase, hlt]
    · rw [if_neg hlt]
      simp [hlt]
  · rename_i hphase
    exact iff_of_false (by simp) fun h => hphase h.1

lemma mem_held_step {reply : Reply A} (h : (row, ack) ∈ (p.step n bound reply).held) :
    (row, ack) ∈ p.held ∨
      p.sending n = some row ∧ reply.cancelled = false ∧ reply.sent = some ack := by
  have hmoves := moves_step n bound p reply
  generalize p.step n bound reply = p' at hmoves h
  cases hmoves with
  | cancelled | sentAll | settledAll | retried | ended => exact .inl h
  | started | unsent | unsettled => cases h
  | sent ack' hphase hlt hcancelled hsent =>
    rcases mem_append.1 h with h | h
    · exact .inl h
    · obtain ⟨rfl, rfl⟩ := Prod.mk.inj (mem_singleton.1 h)
      exact .inr ⟨sending_eq_some.2 ⟨hphase, rfl, hlt⟩, hcancelled, hsent⟩
  | settled last row' ack' held acknowledgment hphase hheld =>
    rw [hheld]
    exact .inl (mem_cons_of_mem _ h)

lemma firstUnacked_step (p : Pipeline A) (n bound : ℕ) (reply : Reply A) :
    (p.step n bound reply).firstUnacked = p.firstUnacked ∨
      ∃ row ack, p.settling = some (row, ack) ∧ reply.settled ≠ none ∧
        (p.step n bound reply).firstUnacked = row + 1 := by
  have hmoves := moves_step n bound p reply
  generalize p.step n bound reply = p' at hmoves ⊢
  cases hmoves with
  | settled last row ack held acknowledgment hphase hheld hsettled =>
    refine .inr ⟨row, ack, ?_, by simp [hsettled], rfl⟩
    simp only [settling, hphase, hheld, head?_cons]
  | _ => exact .inl rfl

lemma Valid.settling (h : p.Valid n) (hsettling : p.settling = some (row, ack)) :
    row = p.firstUnacked := by
  unfold Pipeline.settling at hsettling
  split at hsettling
  · obtain ⟨held, hheld⟩ := head?_eq_some_iff.1 hsettling
    exact (h.head_held hheld).1
  · cases hsettling

lemma Valid.settling_lt (h : p.Valid n) (hsettling : p.settling = some (row, ack)) : row < n := by
  have hfits := h.fits
  have hrow := h.settling hsettling
  unfold Pipeline.settling at hsettling
  split at hsettling
  · rename_i last hphase
    obtain ⟨held, hheld⟩ := head?_eq_some_iff.1 hsettling
    rw [hphase, hheld, length_cons] at hfits
    obtain ⟨hidx, hle, -⟩ := hfits
    omega
  · cases hsettling

/-! ## Whole publications -/

/-- No more acknowledgments are held than may be in flight, and always one can be. -/
def Bounded (bound : ℕ) (p : Pipeline A) : Prop :=
  p.held.length ≤ max 1 bound ∧ (p.phase = .pass → p.held.length < max 1 bound)

lemma Bounded.step (h : p.Bounded bound) (reply : Reply A) :
    (p.step n bound reply).Bounded bound := by
  have hpos : 0 < max 1 bound := by omega
  have hmoves := moves_step n bound p reply
  generalize p.step n bound reply = p' at hmoves ⊢
  cases hmoves with
  | cancelled | sentAll => exact ⟨h.1, by simp⟩
  | started => exact ⟨Nat.zero_le _, fun _ => hpos⟩
  | unsent | unsettled => exact ⟨Nat.zero_le _, by simp⟩
  | retried => exact ⟨h.1, by simp⟩
  | ended => exact h
  | sent ack hphase =>
    have hlt := h.2 hphase
    refine ⟨?_, ?_⟩
    · simp only [length_append, length_cons, length_nil]
      omega
    · intro hpass
      simp only [length_append, length_cons, length_nil] at hpass ⊢
      split_ifs at hpass with hfull
      omega
  | settled last row ack held acknowledgment hphase hheld =>
    have hlength := h.1
    rw [hheld, length_cons] at hlength
    exact ⟨by simp only; omega, by simp [hphase]⟩
  | settledAll last hphase hheld => exact ⟨h.1, fun _ => by simp [hheld, hpos]⟩

def run (n bound : ℕ) (p : Pipeline A) (replies : List (Reply A)) : Pipeline A :=
  replies.foldl (Pipeline.step n bound) p

/-- The row whose acknowledgment a step settles. -/
def settledRow (p : Pipeline A) (reply : Reply A) : Option ℕ :=
  if reply.settled.isSome then p.settling.map Prod.fst else none

def settledRows (n bound : ℕ) : Pipeline A → List (Reply A) → List ℕ
  | _, [] => []
  | p, reply :: replies =>
    (p.settledRow reply).toList ++ settledRows n bound (p.step n bound reply) replies

lemma settling_of_phase (h : ∀ last, p.phase ≠ .settling last) : p.settling = none := by
  unfold settling
  split
  · rename_i last hphase
    exact absurd hphase (h last)
  · rfl

lemma Valid.settledRow_step (h : p.Valid n) (bound : ℕ) (reply : Reply A) :
    List.range p.firstUnacked ++ (p.settledRow reply).toList =
      List.range (p.step n bound reply).firstUnacked := by
  have hmoves := moves_step n bound p reply
  generalize p.step n bound reply = p' at hmoves ⊢
  cases hmoves with
  | settled last row ack held acknowledgment hphase hheld hsettled =>
    have hrow := (h.head_held hheld).1
    simp [settledRow, hsettled, Pipeline.settling, hphase, hheld, hrow, range_succ]
  | cancelled hphase =>
    rw [settledRow, settling_of_phase fun last hlast => by simp [hlast] at hphase]
    simp
  | started hphase | sent _ hphase | unsent hphase | sentAll hphase | retried hphase
  | ended _ hphase =>
    rw [settledRow, settling_of_phase fun last hlast => by simp [hlast] at hphase]
    simp
  | unsettled last hphase hheld hsettled => simp [settledRow, hsettled]
  | settledAll last hphase hheld => simp [settledRow, Pipeline.settling, hphase, hheld]

lemma Valid.run (h : p.Valid n) (hbounded : p.Bounded bound) (replies : List (Reply A)) :
    (p.run n bound replies).Valid n ∧ (p.run n bound replies).Bounded bound ∧
      List.range p.firstUnacked ++ p.settledRows n bound replies =
        List.range (p.run n bound replies).firstUnacked := by
  induction replies generalizing p with
  | nil => exact ⟨h, hbounded, by simp [settledRows, Pipeline.run]⟩
  | cons reply replies ih =>
    obtain ⟨hvalid, hbounded, hrows⟩ := ih (h.step reply) (hbounded.step (n := n) reply)
    refine ⟨hvalid, hbounded, ?_⟩
    rw [settledRows, ← append_assoc, h.settledRow_step bound, hrows]
    rfl

/-- Wherever a publication stops, the rows settled so far are the first ones, each once and in
order; a failed pass has a row to restart from, the acknowledgment that settles next is that of the
first unacknowledged row, and one that ends acknowledged has settled every row. -/
theorem settles_in_order (n bound : ℕ) (replies : List (Reply A)) :
    let p := (start : Pipeline A).run n bound replies
    start.settledRows n bound replies = List.range p.firstUnacked ∧
      p.tally.published = p.firstUnacked ∧ p.firstUnacked ≤ n ∧
      (∀ reply, p.firstUnacked ≤ (p.step n bound reply).firstUnacked) ∧
      (p.phase = .backoff → p.firstUnacked < n) ∧
      (∀ row ack, p.settling = some (row, ack) → row = p.firstUnacked ∧ row < n) ∧
      p.held.length ≤ max 1 bound ∧
      ∀ tally, p.phase = .done (.acked tally) → p.firstUnacked = n ∧ tally.published = n := by
  obtain ⟨hvalid, hbounded, hrows⟩ := (valid_start (n := n)).run
    (⟨Nat.zero_le _, by simp [start]⟩ : (start : Pipeline A).Bounded bound) replies
  have hfits := hvalid.fits
  refine ⟨by simpa [start] using hrows, hvalid.counted, hvalid.firstUnacked_le, fun reply => ?_,
    fun hphase => ?_, fun row ack hsettling => ⟨hvalid.settling hsettling, ?_⟩, hbounded.1,
    fun tally hphase => ?_⟩
  · have hstep := congrArg List.length (hvalid.settledRow_step bound reply)
    simp only [length_append, length_range] at hstep
    omega
  · rw [hphase] at hfits
    exact hfits.1
  · exact hvalid.settling_lt hsettling
  · rw [hphase] at hfits
    exact hfits

end Pipeline

end Wamn.Cdc
