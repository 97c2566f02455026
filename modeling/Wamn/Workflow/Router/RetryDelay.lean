import Wamn.Workflow.Router.Invariant

/-!
# When a retry is due

A failed attempt is tried again after the backoff of the policy or what a rate limit asks for. The
deadline is the sum of clock and delay in 64 bits. A backoff is an hour at most, but a source asks
for any number, and a sum that does not fit wraps to a deadline in the past.
-/

namespace Wamn.Workflow.Router

open Lib Lib.Json

def NodeError.delayMs (lib : Library) (policy : RetryPolicy) (attempt : ℕ) : NodeError → ℕ
  | .rateLimited limit => limit.retryAfterMs.getD (policy.backoffMs lib attempt)
  | .retryable _ | .terminal _ | .invalidInput _ => policy.backoffMs lib attempt

/-- The delay that a source asks for is a 64-bit number. -/
def NodeError.Fits : NodeError → Prop
  | .rateLimited limit => ∀ delay ∈ limit.retryAfterMs, delay < 2 ^ 64
  | .retryable _ | .terminal _ | .invalidInput _ => True

/-- Asking for work at these clock readings hands out an invocation. -/
def Wiring.handsOut (w : Wiring) : Walk → List ℕ → Bool
  | _, [] => false
  | walk, nowMs :: readings =>
    match w.next walk nowMs with
    | .ok (.invoke _, _) => true
    | .ok (_, walk') => w.handsOut walk' readings
    | .error _ => false

/-- The walk is on the node of a call, and a failure of it is to be tried again. -/
structure Wiring.Retries (walk : Walk) (a : Active) (call : NodeCall) (error : NodeError) :
    Prop where
  running : walk.status = .running
  active : walk.current = some a
  node : a.node = call.node
  retries : error.retries = true
  budget : (RetryPolicy.fromConfig call.config).mayRetry a.attempt = true

namespace RetryPolicy

lemma capMs_fromConfig (config : Value) : (fromConfig config).capMs ≤ capMsCeiling := by
  unfold fromConfig
  split
  · rename_i members _
    cases hn : ((Value.object members).get "cap-ms").bind Value.asU64 with
    | none => simp [hn, default, capMsCeiling]
    | some n =>
      simp only [hn, Option.elim_some]
      exact Nat.min_le_right _ _
  · decide

lemma backoffMs_le (lib : Library) (policy : RetryPolicy) (attempt : ℕ) :
    policy.backoffMs lib attempt ≤ policy.capMs := by
  unfold backoffMs
  split
  · exact Nat.zero_le _
  · refine Nat.div_le_of_le_mul ?_
    rw [Nat.mul_comm]
    exact Nat.min_le_right _ _

end RetryPolicy

namespace Wiring

variable {lib : Library} {w : Wiring} {walk walk' : Walk} {a : Active} {call : NodeCall}
  {error : NodeError} {nowMs : ℕ}

/-- What the calls of `next` keep, and under which they hand out nothing. -/
theorem handsOut_eq_false {I : Walk → Prop} {P : ℕ → Prop}
    (hstep : ∀ walk nowMs step walk', I walk → P nowMs → Nexts w nowMs walk step walk' →
      I walk' ∧ ∀ call, step ≠ .invoke call)
    {readings : List ℕ} (hwalk : I walk) (hreadings : ∀ nowMs ∈ readings, P nowMs) :
    w.handsOut walk readings = false := by
  induction readings generalizing walk with
  | nil => rfl
  | cons nowMs readings ih =>
    obtain ⟨hnow, hrest⟩ := List.forall_mem_cons.1 hreadings
    rw [handsOut]
    split
    · rename_i call walk' hnext
      exact absurd rfl ((hstep _ _ _ _ hwalk hnow (next_eq_ok hnext)).2 call)
    · rename_i step walk' _ hnext
      exact ih (hstep _ _ _ _ hwalk hnow (next_eq_ok hnext)).1 hrest
    · rfl

lemma delayMs_lt (lib : Library) (config : Value) (attempt : ℕ) (fits : error.Fits) :
    error.delayMs lib (RetryPolicy.fromConfig config) attempt < 2 ^ 64 := by
  have hbackoff : (RetryPolicy.fromConfig config).backoffMs lib attempt < 2 ^ 64 :=
    calc (RetryPolicy.fromConfig config).backoffMs lib attempt
        ≤ (RetryPolicy.fromConfig config).capMs := RetryPolicy.backoffMs_le lib _ attempt
      _ ≤ RetryPolicy.capMsCeiling := RetryPolicy.capMs_fromConfig config
      _ < 2 ^ 64 := by decide
  cases error with
  | retryable | terminal | invalidInput => exact hbackoff
  | rateLimited limit =>
    cases hafter : limit.retryAfterMs with
    | none => simpa [NodeError.delayMs, hafter] using hbackoff
    | some delay => simpa [NodeError.delayMs, hafter] using fits delay hafter

/-- The walk after a failure that is tried again: the deadline is the sum in 64 bits. -/
theorem apply_of_retries (lib : Library) (w : Wiring) (h : Retries walk a call error) (nowMs : ℕ) :
    ∃ throttle, (w.apply lib walk call (.error error) nowMs).2 = scheduleRetry walk
      ((nowMs + error.delayMs lib (RetryPolicy.fromConfig call.config) a.attempt) % 2 ^ 64)
      throttle := by
  rw [apply_of_active h.running h.active h.node]
  cases error with
  | retryable detail => exact ⟨none, by simp [applyError, h.budget, NodeError.delayMs]⟩
  | rateLimited limit =>
    refine ⟨some ⟨call.component, call.credential, limit.targetHost⟩, ?_⟩
    simp [applyError, h.budget, NodeError.delayMs]
  | terminal | invalidInput => cases h.retries

/-- A walk with a node in the active slot waits, meets the hop limit or invokes that node. -/
theorem next_cases {step : Step} (running : walk.status = .running)
    (active : walk.current = some a) (h : Nexts w nowMs walk step walk') :
    nowMs < a.retryUntilMs ∧ walk' = walk ∧ (∀ call, step ≠ .invoke call) ∨
      a.retryUntilMs ≤ nowMs ∧ w.hopLimit ≤ walk.hops ∧ walk'.status = .failed ∧
        (∀ call, step ≠ .invoke call) ∨
      a.retryUntilMs ≤ nowMs ∧ walk.hops < w.hopLimit ∧ ∃ call, step = .invoke call := by
  have hpromoted : walk.promoted = walk := Walk.promoted_of_current active
  cases h with
  | ended terminal => simp [running, WalkStatus.isTerminal] at terminal
  | unreleased _ idle | settled _ idle => simp [idle] at active
  | waiting b _ hb early =>
    rw [hpromoted, active, Option.some_inj] at hb
    subst hb
    exact .inl ⟨early, hpromoted, by simp⟩
  | spent b _ hb due limit =>
    rw [hpromoted, active, Option.some_inj] at hb
    subst hb
    exact .inr (.inl ⟨due, limit, rfl, by simp⟩)
  | invoked b node _ hb due limit =>
    rw [hpromoted, active, Option.some_inj] at hb
    subst hb
    exact .inr (.inr ⟨due, limit, _, rfl⟩)

/-- The next attempt is not handed out before the clock reads the sum of the clock and the delay,
exactly if that sum fits in 64 bits or the hop limit is spent. -/
theorem handsOut_retry_iff (lib : Library) (w : Wiring) (walk : Walk) (a : Active)
    (call : NodeCall) (error : NodeError) (nowMs : ℕ) (valid : walk.Valid w)
    (h : Retries walk a call error) (clock : nowMs < 2 ^ 64) (fits : error.Fits) :
    let delay := error.delayMs lib (RetryPolicy.fromConfig call.config) a.attempt
    (∀ readings : List ℕ, (∀ t ∈ readings, t < 2 ^ 64 ∧ t < nowMs + delay) →
      w.handsOut (w.apply lib walk call (.error error) nowMs).2 readings = false) ↔
      nowMs + delay < 2 ^ 64 ∨ w.hopLimit ≤ walk.hops := by
  intro delay
  obtain ⟨throttle, happly⟩ := apply_of_retries lib w h nowMs
  have hdelay : delay < 2 ^ 64 := delayMs_lt lib call.config a.attempt fits
  have hcurrent : (scheduleRetry walk ((nowMs + delay) % 2 ^ 64) throttle).current =
      some { a with
        attempt := a.attempt + 1, retryUntilMs := (nowMs + delay) % 2 ^ 64,
        throttle := throttle } := by
    simp [scheduleRetry, h.active]
  have hrunning : (scheduleRetry walk ((nowMs + delay) % 2 ^ 64) throttle).status = .running :=
    h.running
  rw [happly]
  constructor
  · intro hnever
    by_contra hopen
    obtain ⟨hwraps, hlimit⟩ := not_or.1 hopen
    -- The deadline is the clock less than a full turn ago, and the clock reads less than the sum.
    have hdue : (nowMs + delay) % 2 ^ 64 ≤ nowMs := by omega
    have hvalid : (scheduleRetry walk ((nowMs + delay) % 2 ^ 64) throttle).Valid w := by
      refine .of_running h.running ?_ (valid.failure_eq_none (by simp [h.running]))
      rw [pending_scheduleRetry]
      exact valid.resolves
    obtain ⟨⟨step, walk'⟩, hnext⟩ := next_isOk hvalid nowMs
    have hearly : w.handsOut (scheduleRetry walk ((nowMs + delay) % 2 ^ 64) throttle) [nowMs] =
        false := hnever [nowMs] (by simp; omega)
    rcases next_cases hrunning hcurrent (next_eq_ok hnext) with
      ⟨hearly, -⟩ | ⟨-, hspent, -⟩ | ⟨-, -, call, rfl⟩
    · exact absurd hdue (not_le.2 hearly)
    · exact hlimit hspent
    · rw [handsOut, hnext] at hearly
      cases hearly
  · rintro (hfits | hlimit) readings hreadings
    · -- Until the deadline the walk waits, and stays as it is.
      refine handsOut_eq_false
        (I := (· = scheduleRetry walk ((nowMs + delay) % 2 ^ 64) throttle)) ?_ rfl hreadings
      rintro _ t step walk' rfl ⟨-, ht⟩ hnexts
      have hdeadline : (nowMs + delay) % 2 ^ 64 = nowMs + delay := Nat.mod_eq_of_lt hfits
      rcases next_cases hrunning hcurrent hnexts with ⟨-, hsame, hno⟩ | ⟨hdue, -⟩ | ⟨hdue, -⟩
      · exact ⟨hsame, hno⟩
      · exact absurd (hdeadline ▸ hdue) (not_le.2 ht)
      · exact absurd (hdeadline ▸ hdue) (not_le.2 ht)
    · -- With the hop limit spent the walk waits or fails, and then it is done.
      refine handsOut_eq_false (I := fun walk' => walk'.status = .failed ∨
        walk' = scheduleRetry walk ((nowMs + delay) % 2 ^ 64) throttle) ?_ (.inr rfl) hreadings
      rintro _ t step walk' (hfailed | rfl) - hnexts
      · cases hnexts with
        | ended => exact ⟨.inl hfailed, by simp⟩
        | unreleased running => simp [hfailed] at running
        | settled running | waiting _ running | spent _ running | invoked _ _ running =>
          simp [hfailed] at running
      · rcases next_cases hrunning hcurrent hnexts with
          ⟨-, hsame, hno⟩ | ⟨-, -, hfailed, hno⟩ | ⟨-, hopen, -⟩
        · exact ⟨.inr hsame, hno⟩
        · exact ⟨.inl hfailed, hno⟩
        · exact absurd hlimit (not_le.2 hopen)

end Wiring

namespace Sample

/-- A walk of `answerOrReport` that was handed its first invocation. -/
def handedOut (w : Wiring) : Walk :=
  w.operate ⟨id, fun _ _ _ => none⟩ (w.start ⟨"d", .null, true⟩) (.next 0)

def limitedFor (delay : ℕ) : NodeError := .rateLimited ⟨.coded "busy" "slow down", some delay, none⟩

/-- A source that asks for a minute is not asked again before. -/
theorem minute_is_waited : ∃ w, answerOrReport = .ok w ∧
    ∀ readings : List ℕ, (∀ t ∈ readings, t < 2 ^ 64 ∧ t < 5 + 60000) →
      w.handsOut (w.apply ⟨id, fun _ _ _ => none⟩ (handedOut w) (callOf "answer")
        (.error (limitedFor 60000)) 5).2 readings = false := by
  refine ⟨_, rfl, ?_⟩
  refine (Wiring.handsOut_retry_iff ⟨id, fun _ _ _ => none⟩ _ _
    ⟨"answer", none, .null, 0, 0, none⟩ (callOf "answer")
      (limitedFor 60000) 5 ?_ ⟨rfl, rfl, rfl, rfl, rfl⟩ (by decide) ?_).2 (.inl (by decide))
  · exact (Wiring.valid_operate_iff (Wiring.valid_start _ _) _).2 id
  · simp [NodeError.Fits, limitedFor]

/-- A source that asks for the longest delay there is gets its next request at once. -/
theorem longest_delay_is_not_waited : ∃ w, answerOrReport = .ok w ∧
    w.handsOut (w.apply ⟨id, fun _ _ _ => none⟩ (handedOut w) (callOf "answer")
      (.error (limitedFor (2 ^ 64 - 1))) 5).2 [5] = true ∧ 5 < 5 + (2 ^ 64 - 1) :=
  ⟨_, rfl, by decide, by decide⟩

end Sample

end Wamn.Workflow.Router
