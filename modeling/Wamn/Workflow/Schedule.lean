import Mathlib.Data.List.Basic
import Mathlib.Data.Int.Notation

/-!
# Schedule ticks

`serve_with_clock` waits for a whole minute, admits a run of each enabled schedule that is due, and
goes on to the first minute after the time its clock reads then. The minutes that a clock jumps over
are not served.

The server stops where the source reads its clock, looks at the stop signal or awaits, and an
`Input` says what it finds there. Instants are nanoseconds.
-/

namespace Wamn.Workflow.Schedule

open List

variable {S : Type}

/-! ## The server -/

/-- The first minute boundary strictly after an instant. -/
def nextMinute (after : ℤ) : ℤ := (after / 1000000000 / 60 * 60 + 60) * 1000000000

/-- What the server finds where it stops. -/
structure Input (S : Type) where
  now : ℤ
  stopping : Bool
  /-- Whether what is awaited is ready. -/
  ready : Bool
  /-- The answer of `rows.enabled()`, or an error. -/
  enabled : Option (List S)

structure Turn (S : Type) where
  tick : ℤ
  /-- The clock when the wait for the tick was over. -/
  woken : Option ℤ
  /-- Whether `rows.enabled()` was called. -/
  started : Bool
  listed : List S
  /-- The calls of `rows.admit`, with the clock at each. -/
  admitted : List (S × ℤ)
  /-- The clock that the next tick was computed from. -/
  ended : Option ℤ

def Turn.new (tick : ℤ) : Turn S := ⟨tick, none, false, [], [], none⟩

inductive Phase (S : Type) where
  | waiting
  | woken
  | missed
  | listing
  | admitting (rest : List S)
  | ending
  | stopped

structure Server (S : Type) where
  past : List (Turn S)
  turn : Turn S
  phase : Phase S

namespace Server

def start (now : ℤ) : Server S := ⟨[], .new (nextMinute now), .waiting⟩

/-- The turn is over, and the next one waits for the first minute after `now`. -/
def next (s : Server S) (now : ℤ) : Server S :=
  ⟨{ s.turn with ended := some now } :: s.past, .new (nextMinute now), .waiting⟩

-- `is_due`, where a schedule that does not parse is not due.
variable (isDue : S → ℤ → Bool)

def step (s : Server S) (input : Input S) : Server S :=
  match s.phase with
  | .waiting =>
    if input.stopping then { s with phase := .stopped }
    -- `wait_until` returns only when the clock reads at least the tick.
    else if input.ready && s.turn.tick ≤ input.now then { s with phase := .woken }
    else s
  | .woken =>
    { s with
      turn := { s.turn with woken := some input.now }
      phase := if nextMinute s.turn.tick ≤ input.now then .missed else .listing }
  | .missed => s.next input.now
  | .listing =>
    if input.stopping then { s with phase := .stopped }
    else if input.ready then
      match input.enabled with
      | none => { s with turn := { s.turn with started := true }, phase := .ending }
      | some listed =>
        { s with
          turn := { s.turn with started := true, listed := listed }
          phase := .admitting listed }
    else { s with turn := { s.turn with started := true } }
  | .admitting [] => { s with phase := .ending }
  | .admitting (schedule :: rest) =>
    if isDue schedule s.turn.tick then
      if input.stopping then { s with phase := .stopped }
      else { s with
        turn := { s.turn with admitted := s.turn.admitted ++ [(schedule, input.now)] }
        phase := .admitting rest }
    else { s with phase := .admitting rest }
  | .ending => s.next input.now
  | .stopped => s

def run (s : Server S) (inputs : List (Input S)) : Server S := inputs.foldl (step isDue) s

end Server

/-! ## Minutes -/

def IsMinute (t : ℤ) : Prop := t % 60000000000 = 0
  deriving Decidable

lemma isMinute_nextMinute (t : ℤ) : IsMinute (nextMinute t) := by
  unfold IsMinute nextMinute
  omega

lemma lt_nextMinute (t : ℤ) : t < nextMinute t := by
  unfold nextMinute
  omega

lemma le_of_lt_nextMinute {m t : ℤ} (hm : IsMinute m) (h : m < nextMinute t) : m ≤ t := by
  unfold IsMinute at hm
  unfold nextMinute at h
  omega

/-! ## Turns -/

/-- What holds of a turn, which may still go on. -/
structure Turn.Valid (start : ℤ) (turn : Turn S) : Prop where
  minute : IsMinute turn.tick
  after : start < turn.tick
  /-- A started turn woke up before the next minute. -/
  onTime : turn.started = true → ∃ woken, turn.woken = some woken ∧ woken < nextMinute turn.tick
  /-- Each listed schedule is admitted at most once. -/
  once : (turn.admitted.map Prod.fst).Sublist turn.listed
  notEarly : ∀ call ∈ turn.admitted, turn.tick ≤ call.2

/-- What the phase says about the current turn, when the clock last read `last`. -/
def Phase.Fits (turn : Turn S) (last : ℤ) : Phase S → Prop
  | .waiting => turn = .new turn.tick
  | .woken => turn = .new turn.tick ∧ turn.tick ≤ last
  | .missed => turn.tick ≤ last ∧ turn.started = false ∧
      ∃ woken, turn.woken = some woken ∧ nextMinute turn.tick ≤ woken
  | .listing => turn.tick ≤ last ∧ turn.listed = [] ∧ turn.admitted = [] ∧
      ∃ woken, turn.woken = some woken ∧ woken < nextMinute turn.tick
  | .admitting rest => turn.tick ≤ last ∧ turn.started = true ∧
      (turn.admitted.map Prod.fst ++ rest).Sublist turn.listed
  | .ending => turn.tick ≤ last ∧ turn.started = true
  | .stopped => True

/-- The minute was served, or the clock had passed it when the server woke up or an earlier turn
ended. -/
inductive Accounted (past : List (Turn S)) (m : ℤ) : Prop where
  | served (turn : Turn S) (hturn : turn ∈ past) (htick : turn.tick = m)
      (hstarted : turn.started = true)
  | missed (turn : Turn S) (hturn : turn ∈ past) (htick : turn.tick = m) (woken : ℤ)
      (hwoken : turn.woken = some woken) (h : nextMinute m ≤ woken)
  | jumped (turn : Turn S) (hturn : turn ∈ past) (htick : turn.tick < m) (ended : ℤ)
      (hended : turn.ended = some ended) (h : m ≤ ended)

lemma Accounted.cons {past : List (Turn S)} {m : ℤ} (h : Accounted past m) (turn : Turn S) :
    Accounted (turn :: past) m := by
  cases h with
  | served turn' hturn htick hstarted => exact .served turn' (by simp [hturn]) htick hstarted
  | missed turn' hturn htick woken hwoken h =>
    exact .missed turn' (by simp [hturn]) htick woken hwoken h
  | jumped turn' hturn htick ended hended h =>
    exact .jumped turn' (by simp [hturn]) htick ended hended h

namespace Server

structure Valid (start last : ℤ) (s : Server S) : Prop where
  ordered : ((s.turn :: s.past).map Turn.tick).Pairwise (· > ·)
  turns : ∀ turn ∈ s.turn :: s.past, turn.Valid start
  fits : s.phase.Fits s.turn last
  accounted : ∀ m, IsMinute m → start < m → m < s.turn.tick → Accounted s.past m

variable {isDue : S → ℤ → Bool} {start last : ℤ} {s : Server S}

lemma valid_start (start : ℤ) : (Server.start start : Server S).Valid start start where
  ordered := pairwise_singleton _ _
  turns := by
    rintro turn (_ | ⟨_, ⟨⟩⟩)
    exact ⟨isMinute_nextMinute start, lt_nextMinute start, nofun, nil_sublist _, nofun⟩
  fits := rfl
  accounted := fun m hm hafter hlt => absurd (le_of_lt_nextMinute hm hlt) (Int.not_le.2 hafter)

variable (h : s.Valid start last)

include h

lemma Valid.update (turn : Turn S) {phase : Phase S} {now : ℤ} (htick : turn.tick = s.turn.tick)
    (hturn : turn.Valid start) (hfits : phase.Fits turn now) :
    Valid start now ⟨s.past, turn, phase⟩ where
  ordered := by simpa only [map_cons, htick] using h.ordered
  turns := forall_mem_cons.2 ⟨hturn, (forall_mem_cons.1 h.turns).2⟩
  fits := hfits
  accounted := fun m hm hafter hlt => h.accounted m hm hafter (by rwa [← htick])

lemma Valid.next {now : ℤ} (hreached : s.turn.tick ≤ now)
    (hdone : s.turn.started = true ∨
      ∃ woken, s.turn.woken = some woken ∧ nextMinute s.turn.tick ≤ woken) :
    (s.next now).Valid start now := by
  obtain ⟨hturn, hpast⟩ := forall_mem_cons.1 h.turns
  have hlt : s.turn.tick < nextMinute now := Int.lt_of_le_of_lt hreached (lt_nextMinute now)
  refine ⟨?_, ?_, rfl, fun m hm hafter hbefore => ?_⟩
  · have hordered := h.ordered
    rw [map_cons, pairwise_cons] at hordered
    refine pairwise_cons.2 ⟨?_, h.ordered⟩
    intro tick htick
    rcases mem_cons.1 htick with rfl | htick
    · exact hlt
    · exact Int.lt_trans (hordered.1 tick htick) hlt
  · refine forall_mem_cons.2 ⟨?_, forall_mem_cons.2 ⟨?_, hpast⟩⟩
    · exact ⟨isMinute_nextMinute now, Int.lt_trans hturn.after hlt, nofun, nil_sublist _, nofun⟩
    · exact ⟨hturn.minute, hturn.after, hturn.onTime, hturn.once, hturn.notEarly⟩
  · rcases Int.lt_trichotomy m s.turn.tick with hm' | rfl | hm'
    · exact (h.accounted m hm hafter hm').cons _
    · rcases hdone with hstarted | ⟨woken, hwoken, hmissed⟩
      · exact .served _ mem_cons_self rfl hstarted
      · exact .missed _ mem_cons_self rfl woken hwoken hmissed
    · exact .jumped _ mem_cons_self hm' now rfl (le_of_lt_nextMinute hm hbefore)

lemma Valid.step {input : Input S} (hclock : last ≤ input.now) :
    (s.step isDue input).Valid start input.now := by
  have hturn := (forall_mem_cons.1 h.turns).1
  have hfits := h.fits
  unfold Server.step
  split
  · rename_i hphase
    rw [hphase] at hfits
    split
    · exact h.update s.turn rfl hturn trivial
    · split
      · rename_i hready
        simp only [Bool.and_eq_true, decide_eq_true_eq] at hready
        exact h.update s.turn rfl hturn ⟨hfits, hready.2⟩
      · exact h.update s.turn rfl hturn (by rw [hphase]; exact hfits)
  · rename_i hphase
    rw [hphase] at hfits
    obtain ⟨hnew, hreached⟩ := hfits
    have hstarted : s.turn.started = false := by rw [hnew]; rfl
    have hreached := Int.le_trans hreached hclock
    refine h.update { s.turn with woken := some input.now } rfl ?_ ?_
    · exact ⟨hturn.minute, hturn.after, fun h => by simp [hstarted] at h, hturn.once,
        hturn.notEarly⟩
    · split
      · rename_i hmissed
        exact ⟨hreached, hstarted, input.now, rfl, hmissed⟩
      · rename_i hontime
        exact ⟨hreached, by rw [hnew]; rfl, by rw [hnew]; rfl, input.now, rfl,
          Int.lt_of_not_ge hontime⟩
  · rename_i hphase
    rw [hphase] at hfits
    exact h.next (Int.le_trans hfits.1 hclock) (.inr hfits.2.2)
  · rename_i hphase
    rw [hphase] at hfits
    obtain ⟨hreached, hlisted, hadmitted, hontime⟩ := hfits
    have hreached := Int.le_trans hreached hclock
    split
    · exact h.update s.turn rfl hturn trivial
    · split
      · split
        · exact h.update { s.turn with started := true } rfl
            ⟨hturn.minute, hturn.after, fun _ => hontime, hturn.once, hturn.notEarly⟩
            ⟨hreached, rfl⟩
        · rename_i listed henabled
          refine h.update { s.turn with started := true, listed := listed } rfl
            ⟨hturn.minute, hturn.after, fun _ => hontime, ?_, hturn.notEarly⟩ ⟨hreached, rfl, ?_⟩
          · simp [hadmitted]
          · simp [hadmitted]
      · refine h.update { s.turn with started := true } rfl
          ⟨hturn.minute, hturn.after, fun _ => hontime, hturn.once, hturn.notEarly⟩ ?_
        rw [hphase]
        exact ⟨hreached, hlisted, hadmitted, hontime⟩
  · rename_i hphase
    rw [hphase] at hfits
    exact h.update s.turn rfl hturn ⟨Int.le_trans hfits.1 hclock, hfits.2.1⟩
  · rename_i schedule rest hphase
    rw [hphase] at hfits
    obtain ⟨hreached, hstarted, honce⟩ := hfits
    have hreached := Int.le_trans hreached hclock
    split
    · split
      · exact h.update s.turn rfl hturn trivial
      · have honce' : ((s.turn.admitted ++ [(schedule, input.now)]).map Prod.fst ++ rest).Sublist
            s.turn.listed := by
          simpa using honce
        refine h.update { s.turn with admitted := s.turn.admitted ++ [(schedule, input.now)] } rfl
          ⟨hturn.minute, hturn.after, hturn.onTime, ?_, ?_⟩ ⟨hreached, hstarted, honce'⟩
        · exact (sublist_append_left _ _).trans honce'
        · exact forall_mem_append.2 ⟨hturn.notEarly, forall_mem_singleton.2 hreached⟩
    · exact h.update s.turn rfl hturn ⟨hreached, hstarted,
        ((sublist_cons_self schedule rest).append_left _).trans honce⟩
  · rename_i hphase
    rw [hphase] at hfits
    exact h.next (Int.le_trans hfits.1 hclock) (.inl hfits.2)
  · rename_i hphase
    exact h.update s.turn rfl hturn (by rw [hphase]; trivial)

lemma Valid.run {inputs : List (Input S)}
    (hclock : (last :: inputs.map Input.now).Pairwise (· ≤ ·)) :
    ∃ last', (s.run isDue inputs).Valid start last' := by
  induction inputs generalizing s last with
  | nil => exact ⟨last, h⟩
  | cons input inputs ih =>
    obtain ⟨hlast, hrest⟩ := pairwise_cons.1 hclock
    exact ih (h.step (hlast input.now mem_cons_self)) hrest

end Server

/-- Over a clock that does not go back, the ticks of the server are whole minutes after the start in
strict order. A listed schedule is admitted at most once for a tick and not before it, no tick is
started when the clock had reached the next minute at wake-up, and an earlier minute was served or
the clock had gone past it. -/
theorem ticks_once (isDue : S → ℤ → Bool) (start : ℤ) (inputs : List (Input S))
    (hclock : (start :: inputs.map Input.now).Pairwise (· ≤ ·)) :
    let s := (Server.start start).run isDue inputs
    ((s.turn :: s.past).map Turn.tick).Pairwise (· > ·) ∧
      (∀ turn ∈ s.turn :: s.past, turn.Valid start) ∧
      ∀ m, IsMinute m → start < m → m < s.turn.tick → Accounted s.past m := by
  obtain ⟨last, h⟩ : ∃ last, ((Server.start start).run isDue inputs).Valid start last :=
    (Server.valid_start start).run hclock
  exact ⟨h.ordered, h.turns, h.accounted⟩

namespace Sample

/-- A clock that serves the first minute, wakes up too late for the second and sleeps through the
third. -/
def sleepy : List (Input Unit) :=
  [60, 60, 61, 62, 62, 62, 190, 190, 190].map fun seconds =>
    ⟨seconds * 1000000000, false, true, some [()]⟩

theorem ticks_once_sleepy :
    let s := (Server.start 30000000000).run (fun _ _ => true) sleepy
    s.past.map (fun turn => (turn.tick, turn.admitted)) =
        [(120000000000, []), (60000000000, [((), 62000000000)])] ∧
      (∀ turn ∈ s.turn :: s.past, turn.Valid 30000000000) ∧
      ∀ m ∈ [60000000000, 120000000000, 180000000000], Accounted s.past m := by
  intro s
  obtain ⟨-, hvalid, haccounted⟩ :=
    ticks_once (fun _ _ => true) 30000000000 sleepy (by decide)
  refine ⟨by decide, hvalid, fun m hm => haccounted m ?_ ?_ ?_⟩
  all_goals
    revert m
    decide

end Sample

end Wamn.Workflow.Schedule
