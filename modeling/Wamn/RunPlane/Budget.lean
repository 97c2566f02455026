import Wamn.RunPlane.Lifecycle

/-!
# The retry budget

A claim counts the expired lease it takes over, outside of the grant, and a credential release
counts itself. The claim leaves a spent row with an expired lease to the janitor, and a release at
the limit ends the run, so no row is taken by both or by neither.
-/

namespace Wamn.RunPlane

open Lib Lib.Json RunState Runtime

variable {J : Type} {pg : Postgres J} {p : Plane J}

/-- The attempts stay within the budget, and a row without a lease has some left. -/
structure WithinBudget (q : QueueRow) : Prop where
  nonneg : 0 ≤ q.attempts
  le_max : q.attempts ≤ q.maxAttempts
  lt_max : q.leaseExpiresAt = none → q.attempts < q.maxAttempts

lemma WithinBudget.advanced {scope : Scope} {digest : Option String} {now : Instant} {r : Run J}
    {q : QueueRow} (h : WithinBudget q) (eligible : claimEligible scope digest now r q = true) :
    WithinBudget q.advanced := by
  cases hlease : q.leaseExpiresAt with
  | none =>
    have hattempts : q.advanced.attempts = q.attempts := by simp [QueueRow.advanced, hlease]
    exact ⟨hattempts ▸ h.nonneg, hattempts ▸ h.le_max, fun _ => hattempts ▸ h.lt_max hlease⟩
  | some expiresAt =>
    -- A row with a lease is selected only while it has attempts left.
    have hleft : q.attempts < q.maxAttempts := by
      simp only [claimEligible, hlease, Bool.and_eq_true, Bool.or_eq_true] at eligible
      simpa using eligible.2
    have hnonneg := h.nonneg
    refine ⟨?_, ?_, ?_⟩
    · simp [QueueRow.advanced, hlease]; omega
    · simp [QueueRow.advanced, hlease]; omega
    · simp [QueueRow.advanced, hlease]

/-- The actions of a tenant whose rows are admitted with at least one attempt. -/
def Action.Budgeted : Action J → Prop
  | .admitRun _ _ _ _ _ maxAttempts => 1 ≤ maxAttempts
  | _ => True

/-- Every row change of a budgeted action keeps the queue row within its budget. -/
theorem RowChange.withinBudget {id : RunId} {a : Action J} {grant : Option Grant}
    {r r' : Option (Run J)} {q q' : Option QueueRow} (h : RowChange pg id a grant r q r' q')
    (ha : a.Budgeted) (hold : ∀ row, q = some row → WithinBudget row) :
    ∀ row, q' = some row → WithinBudget row := by
  rintro row hrow
  cases h with
  | terminalized | completed | releaseExhausted | reaped => cases hrow
  | callerReleased | deadlinesReported => exact hold row hrow
  | admitted _ _ _ _ maxAttempts =>
    obtain rfl := Option.some.inj hrow
    have hmax : 1 ≤ maxAttempts := ha
    exact ⟨le_rfl, show 0 ≤ maxAttempts by omega, fun _ => show 0 < maxAttempts by omega⟩
  | grantRefused _ _ _ _ _ q _ eligible =>
    obtain rfl := Option.some.inj hrow
    exact (hold q rfl).advanced eligible
  | granted _ _ _ _ _ q _ _ eligible =>
    obtain rfl := Option.some.inj hrow
    -- The fresh lease lets the count reach the limit.
    obtain ⟨hnonneg, hle, -⟩ := (hold q rfl).advanced eligible
    exact ⟨hnonneg, hle, by simp [QueueRow.leased]⟩
  | renewed _ _ _ _ _ q =>
    obtain rfl := Option.some.inj hrow
    obtain ⟨hnonneg, hle, -⟩ := hold q rfl
    exact ⟨hnonneg, hle, by simp [QueueRow.renewed]⟩
  | returned _ _ _ _ q _ _ _ budget =>
    obtain rfl := Option.some.inj hrow
    -- Below the limit the row goes back to the queue, with one attempt left at least.
    have hnonneg := (hold q rfl).nonneg
    exact ⟨show 0 ≤ q.attempts + 1 by omega, show q.attempts + 1 ≤ q.maxAttempts by omega,
      fun _ => budget⟩
  | parked _ _ _ q | woken _ _ _ q =>
    obtain rfl := Option.some.inj hrow
    obtain ⟨hnonneg, hle, hlt⟩ := hold q rfl
    exact ⟨hnonneg, hle, hlt⟩

/-- The plane is reached from a tenant without rows by budgeted actions. -/
def ReachableBudgeted (pg : Postgres J) (p : Plane J) : Prop :=
  Steps (step pg) (fun _ a => a.Budgeted) .empty p

lemma withinBudget_of_reachable (hp : ReachableBudgeted pg p) {id : RunId} {q : QueueRow}
    (hq : p.entry id = some q) : WithinBudget q := by
  refine Steps.invariant
    (I := fun s => ∀ id row, s.entry id = some row → WithinBudget row) (fun s a hs ha => ?_)
    hp (fun id row hrow => by simp at hrow) id q hq
  exact rows_step (I := fun _ _ q => ∀ row, q = some row → WithinBudget row)
    (fun _ _ _ _ _ _ hold hrow => hrow.withinBudget ha hold) hs

lemma ReachableBudgeted.reachable (hp : ReachableBudgeted pg p) : Reachable pg p := by
  refine Steps.invariant (I := Reachable pg) (fun s a hs _ => ?_) hp (Steps.refl _)
  exact Steps.tail hs (a := a) trivial

/-! ## The two selects -/

lemma not_both_eligible (claimScope janitorScope : Scope) (digest : Option String)
    (graceMs : ℤ) (now : Instant) (r : Run J) (q : QueueRow) :
    ¬(claimEligible claimScope digest now r q = true ∧
      exhaustedEligible janitorScope graceMs now r q = true) := by
  rintro ⟨hclaim, hjanitor⟩
  simp only [claimEligible, exhaustedEligible, Bool.and_eq_true, Bool.or_eq_true,
    decide_eq_true_eq] at hclaim hjanitor
  obtain ⟨-, hleft | hnone⟩ := hclaim
  · -- The claim wants attempts left, the janitor wants none.
    have := hjanitor.1.2
    omega
  · -- The claim wants no lease, the janitor an expired one.
    simp [Option.isNone_iff_eq_none.1 hnone] at hjanitor

/-- Its position is reached, and its lease is absent or expired for the grace. -/
structure DueAndFree (graceMs : ℤ) (now : Instant) (q : QueueRow) : Prop where
  due : q.availableAt ≤ (now : WithTop Instant)
  free : ∀ expiresAt, q.leaseExpiresAt = some expiresAt → expiresAt + millis graceMs ≤ now

/-- A due and free row within its budget is eligible for the claim with no lease or attempts left,
else for the janitor. -/
theorem eligible_of_dueAndFree {scope : Scope} {digest : Option String} {graceMs : ℤ}
    {now : Instant} {r : Run J} {q : QueueRow} (hgrace : 0 ≤ graceMs)
    (hscope : scope.covers r = true) (hdigest : r.manifestDigest = digest)
    (hrunnable : r.runnable = true) (hfree : DueAndFree graceMs now q) :
    claimEligible scope digest now r q = true ∨
      exhaustedEligible scope graceMs now r q = true := by
  cases hlease : q.leaseExpiresAt with
  | none => left; simp [claimEligible, hscope, hdigest, hfree.due, hlease]
  | some expiresAt =>
    have hexpired := hfree.free expiresAt hlease
    by_cases hleft : q.attempts < q.maxAttempts
    · left
      have hspan : 0 ≤ millis graceMs := by unfold millis; omega
      have hpast : expiresAt ≤ now := le_trans (le_add_of_nonneg_right hspan) hexpired
      simp [claimEligible, hscope, hdigest, hfree.due, hlease, hpast, hleft]
    · right
      simp [exhaustedEligible, hscope, hlease, hexpired, hrunnable]
      omega

/-- The retry budget and no limbo. In every plane reached with rows admitted under at least one
attempt, a queue row has `0 ≤ attempts ≤ max_attempts`, and fewer than `max_attempts` without a
lease. No row is eligible for a claim and for the janitor at once, and a row of a runnable run that
is due and whose lease is absent or expired for the grace is eligible for exactly one. -/
theorem retry_budget_and_no_limbo (pg : Postgres J) {p : Plane J} (hp : ReachableBudgeted pg p)
    {id : RunId} {r : Run J} {q : QueueRow} (hr : p.run id = some r) (hq : p.entry id = some q) :
    (0 ≤ q.attempts ∧ q.attempts ≤ q.maxAttempts ∧
      (q.leaseExpiresAt = none → q.attempts < q.maxAttempts)) ∧
    (∀ claimScope janitorScope digest graceMs now,
      ¬(claimEligible claimScope digest now r q = true ∧
        exhaustedEligible janitorScope graceMs now r q = true)) ∧
    ∀ scope digest graceMs now, 0 ≤ graceMs → scope.covers r = true → r.manifestDigest = digest →
      DueAndFree graceMs now q →
        Xor (claimEligible scope digest now r q = true)
          (exhaustedEligible scope graceMs now r q = true) := by
  have hbudget := withinBudget_of_reachable hp hq
  refine ⟨⟨hbudget.nonneg, hbudget.le_max, hbudget.lt_max⟩, ?_, ?_⟩
  · intro claimScope janitorScope digest graceMs now
    exact not_both_eligible claimScope janitorScope digest graceMs now r q
  · intro scope digest graceMs now hgrace hscope hdigest hfree
    -- A queued run is runnable, so the janitor does not pass it over.
    obtain ⟨run, hrun, hrunnable⟩ :=
      (queuedUntilEnd_of_reachable hp.reachable id).1 (by simp [hq])
    obtain rfl : r = run := Option.mem_unique hr hrun
    have hneither := not_both_eligible scope scope digest graceMs now r q
    rcases eligible_of_dueAndFree hgrace hscope hdigest (by simp [Run.runnable, hrunnable])
      hfree with hclaim | hjanitor
    · exact .inl ⟨hclaim, fun hjanitor => hneither ⟨hclaim, hjanitor⟩⟩
    · exact .inr ⟨hjanitor, fun hclaim => hneither ⟨hclaim, hjanitor⟩⟩

namespace Sample

/-- The claimed run, whose only attempt was spent by a second claim. -/
def spent : List (Action Value) :=
  [.admitRun 0 "r1" checkout 0 0 1, .claimNext (host "a") scope 30 (turn 1),
    .claimNext (host "b") scope 30 (turn 100000)]

/-- Once the second lease has expired for the grace, the spent row is the janitor's alone. -/
theorem spent_row_is_the_janitors :
    ∃ r q, (planeAfter spent).run "r1" = some r ∧ (planeAfter spent).entry "r1" = some q ∧
      q.attempts = 1 ∧
      Xor (claimEligible scope none 10000000 r q = true)
        (exhaustedEligible scope 5000 10000000 r q = true) := by
  have hr : (planeAfter spent).run "r1" = some (((planeAfter spent).run "r1").get (by decide)) :=
    (Option.some_get _).symm
  have hq : (planeAfter spent).entry "r1" =
      some (((planeAfter spent).entry "r1").get (by decide)) := (Option.some_get _).symm
  have hreachable : ReachableBudgeted .identity (planeAfter spent) :=
    Steps.foldl _ _ fun _ a ha => by
      simp only [spent, List.mem_cons, List.not_mem_nil, or_false] at ha
      rcases ha with rfl | rfl | rfl
      · exact le_rfl
      · trivial
      · trivial
  refine ⟨_, _, hr, hq, by decide, ?_⟩
  refine (retry_budget_and_no_limbo .identity hreachable hr hq).2.2 scope none 5000 10000000
    (by decide) (by decide) (by decide) ⟨by decide, fun expiresAt hexpires => ?_⟩
  obtain rfl : 130000 = expiresAt := Option.some.inj (hexpires.symm ▸ by decide)
  decide

end Sample

end Wamn.RunPlane
