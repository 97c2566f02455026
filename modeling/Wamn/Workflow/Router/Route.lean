import Wamn.Lib.Loop
import Wamn.Workflow.Router.Invariant

/-!
# Routing a delivery to its end

`route` reads the clock, asks the walk for work, and waits or invokes a node, until the walk is
done. An invoker is a function of the history of the run. The hop limit bounds the invocations. A
wait takes the loop nowhere only if the clock does not get to the deadline, which `wait_until` rules
out; the clock may run backwards.
-/

namespace Wamn.Workflow.Router

open List Lib Lib.Json

/-! ## The loop -/

inductive Event where
  | clock (nowMs : ℕ)
  | waited (node : String) (untilMs : ℕ) (throttle : Option ThrottleKey)
  | invoked (call : NodeCall) (outcome : NodeOutcome)

/-- The answers of a host, given what happened so far. -/
structure NodeInvoker where
  invoke : List Event → NodeCall → NodeOutcome
  nowMs : List Event → ℕ

/-- The clock has reached the deadline when a wait is over. -/
def NodeInvoker.Punctual (invoker : NodeInvoker) : Prop :=
  ∀ history node untilMs throttle, untilMs < 2 ^ 64 →
    untilMs ≤ invoker.nowMs (history ++ [.waited node untilMs throttle])

/-- What `route` returns: the outcome of the walk and the invocations handed out for it. -/
structure Routed extends Outcome where
  hops : ℕ

def Walk.report (walk : Walk) (status : WalkStatus) : Routed where
  status := status
  result := walk.result
  failure := walk.failure
  verdict := walk.verdict
  hops := walk.hops

structure Routing where
  walk : Walk
  history : List Event

section

variable (lib : Library) (w : Wiring) (invoker : NodeInvoker) (r : Routing)

def feedBack (call : NodeCall) : Except Panic Routing :=
  let outcome := invoker.invoke r.history call
  let history := r.history ++ [.invoked call outcome]
  let now := invoker.nowMs history
  match w.answer lib r.walk call outcome now with
  | (.ok (), walk) => pure ⟨walk, history ++ [.clock now]⟩
  | (.error _, _) => throw ⟨"the walk accepts the outcome of the call it handed out"⟩

def turn : Except Panic (Routing ⊕ (Routed × List Event)) := do
  let now := invoker.nowMs r.history
  let history := r.history ++ [.clock now]
  let (step, walk) ← w.next r.walk now
  match step with
  | .done status => pure (.inr (walk.report status, history))
  | .wait node untilMs _ throttle =>
    pure (.inl ⟨walk, history ++ [.waited node untilMs throttle]⟩)
  | .invoke call => return .inl (← feedBack lib w invoker ⟨walk, history⟩ call)

def Routing.start (delivery : Delivery) : Routing := ⟨w.start delivery, []⟩

end

/-- `route` in at most `fuel` iterations, with the history. -/
def route (lib : Library) (delivery : Delivery) (w : Wiring) (invoker : NodeInvoker) (fuel : ℕ) :
    Except Panic (Option (Routed × List Event)) :=
  loop (turn lib w invoker) fuel (Routing.start w delivery)

/-! ## One iteration -/

inductive Turns (lib : Library) (w : Wiring) (invoker : NodeInvoker) (r : Routing) :
    Routing ⊕ (Routed × List Event) → Prop where
  | returned (status : WalkStatus) (walk : Walk)
      (next : Nexts w (invoker.nowMs r.history) r.walk (.done status) walk) :
      Turns lib w invoker r
        (.inr (walk.report status, r.history ++ [.clock (invoker.nowMs r.history)]))
  | waited (a : Active) (running : r.walk.status = .running)
      (active : r.walk.promoted.current = some a)
      (early : invoker.nowMs r.history < a.retryUntilMs) :
      Turns lib w invoker r (.inl ⟨r.walk.promoted, r.history ++
        [.clock (invoker.nowMs r.history), .waited a.node a.retryUntilMs a.throttle]⟩)
  | invoked (a : Active) (node : WiringNode) (outcome : NodeOutcome) (walk : Walk) (appliedMs : ℕ)
      (invokes : w.Invokes lib r.walk (invoker.nowMs r.history) a node outcome walk) :
      Turns lib w invoker r (.inl ⟨walk, r.history ++ [.clock (invoker.nowMs r.history),
        .invoked (Wiring.nodeCall r.walk a node) outcome, .clock appliedMs]⟩)

variable {lib : Library} {w : Wiring} {invoker : NodeInvoker} {r r' : Routing}

lemma feedBack_spec (lib : Library) (w : Wiring) (invoker : NodeInvoker) (call : NodeCall)
    {a : Active} (running : r.walk.status = .running) (active : r.walk.current = some a)
    (node : a.node = call.node) : ∃ outcome walk nowMs,
      feedBack lib w invoker r call =
        .ok ⟨walk, r.history ++ [.invoked call outcome, .clock nowMs]⟩ ∧
      Applied lib w r.walk a.attempt call outcome walk := by
  let outcome := invoker.invoke r.history call
  let nowMs := invoker.nowMs (r.history ++ [.invoked call outcome])
  obtain ⟨walk, hanswer, happlied⟩ :=
    Wiring.answer_spec lib w outcome nowMs running active node
  refine ⟨outcome, walk, nowMs, ?_, happlied⟩
  unfold feedBack
  dsimp only
  rw [hanswer]
  simp [outcome, nowMs, pure, Except.pure]

lemma turn_spec (lib : Library) (invoker : NodeInvoker) (valid : r.walk.Valid w) :
    ∃ result, turn lib w invoker r = .ok result ∧ Turns lib w invoker r result := by
  obtain ⟨⟨step, walk⟩, hnext⟩ := Wiring.next_isOk valid (invoker.nowMs r.history)
  have hnexts := Wiring.next_eq_ok hnext
  cases step with
  | done status => exact ⟨_, bind_eq_ok.2 ⟨_, hnext, rfl⟩, .returned status walk hnexts⟩
  | wait node untilMs attempt throttle =>
    cases hnexts with
    | waiting a running active early =>
      refine ⟨_, bind_eq_ok.2 ⟨_, hnext, rfl⟩, ?_⟩
      rw [append_assoc]
      exact .waited a running active early
  | invoke call =>
    cases hnexts with
    | invoked a node running active due limit found =>
      have hrunning : r.walk.promoted.status = .running := r.walk.status_promoted.trans running
      obtain ⟨outcome, walk, appliedMs, hfeed, happlied⟩ :=
        feedBack_spec lib w invoker (Wiring.nodeCall r.walk a node) (r := ⟨
          { r.walk.promoted with hops := r.walk.promoted.hops + 1 },
          r.history ++ [.clock (invoker.nowMs r.history)]⟩) hrunning active rfl
      refine ⟨_, bind_eq_ok.2 ⟨_, hnext, bind_eq_ok.2 ⟨_, hfeed, rfl⟩⟩, ?_⟩
      rw [append_assoc]
      exact .invoked a node outcome walk appliedMs ⟨running, active, due, limit, found, happlied⟩

/-! ## Whole runs -/

def Event.isInvocation : Event → Bool
  | .invoked _ _ => true
  | .clock _ | .waited _ _ _ => false

def invocations (history : List Event) : ℕ := history.countP Event.isInvocation

/-- The wait at place `k` was over at the next clock reading, and its node was invoked. -/
def FollowedUp (history : List Event) (k : ℕ) (node : String) : Prop :=
  ∃ call outcome, history[k + 2]? = some (.invoked call outcome) ∧ call.node = node

lemma FollowedUp.append {history : List Event} {k : ℕ} {node : String}
    (h : FollowedUp history k node) (more : List Event) :
    FollowedUp (history ++ more) k node := by
  obtain ⟨call, outcome, hcall, hnode⟩ := h
  refine ⟨call, outcome, ?_, hnode⟩
  have hlt : k + 2 < history.length := (List.getElem?_eq_some_iff.1 hcall).1
  rw [getElem?_append_left hlt, hcall]

lemma getElem?_append_cases {history more : List Event} {k : ℕ} {event : Event}
    (h : (history ++ more)[k]? = some event) :
    history[k]? = some event ∨ ∃ i, k = history.length + i ∧ more[i]? = some event := by
  by_cases hk : k < history.length
  · rw [getElem?_append_left hk] at h
    exact .inl h
  · rw [getElem?_append_right (not_lt.1 hk)] at h
    exact .inr ⟨k - history.length, by omega, h⟩

namespace Routing

/-- The active node has a retry that is due at a deadline. -/
def Awaits (r : Routing) (node : String) (untilMs : ℕ) : Prop :=
  r.walk.status = .running ∧
    ∃ a, r.walk.current = some a ∧ a.node = node ∧ a.retryUntilMs = untilMs

structure Sound (w : Wiring) (r : Routing) : Prop where
  valid : r.walk.Valid w
  counted : r.walk.hops = invocations r.history
  limit : r.walk.hops ≤ w.hopLimit
  bounded : ∀ a, r.walk.current = some a → a.retryUntilMs < 2 ^ 64
  /-- Every wait but the last event was followed up, and after that one the retry is pending. -/
  followed : ∀ k node untilMs throttle, r.history[k]? = some (.waited node untilMs throttle) →
    FollowedUp r.history k node ∨ r.history.length = k + 1 ∧ r.Awaits node untilMs

def waits (r : Routing) : Bool :=
  match r.history.getLast? with
  | some (.waited _ _ _) => true
  | _ => false

/-- Two units for each invocation that is left, for a wait and the invocation itself. -/
def remaining (w : Wiring) (r : Routing) : ℕ :=
  2 * (w.hopLimit - r.walk.hops) + if r.waits then 0 else 1

variable {a : Active} {throttle : Option ThrottleKey}

lemma exists_wait_of_waits (h : r.waits = true) : ∃ k node untilMs throttle,
    r.history[k]? = some (.waited node untilMs throttle) ∧ ¬ FollowedUp r.history k node := by
  unfold waits at h
  split at h
  · rename_i node untilMs throttle hlast
    rw [getLast?_eq_getElem?] at hlast
    refine ⟨_, node, untilMs, throttle, hlast, ?_⟩
    rintro ⟨call, outcome, hcall, -⟩
    have hlt := (List.getElem?_eq_some_iff.1 hcall).1
    omega
  · cases h

variable (sound : r.Sound w)

include sound

lemma Sound.bounded_promoted (active : r.walk.promoted.current = some a) :
    a.retryUntilMs < 2 ^ 64 := by
  rcases Walk.promoted_cases active with hcurrent | ⟨-, token, rfl⟩
  · exact sound.bounded a hcurrent
  · exact Nat.two_pow_pos 64

variable (punctual : invoker.Punctual)

include punctual

/-- After a wait that was the last event, the active node is the one that waited, and it is due. -/
theorem Sound.due_of_last {k untilMs : ℕ} {node : String}
    (hwait : r.history[k]? = some (.waited node untilMs throttle))
    (hlast : r.history.length = k + 1) (hawaits : r.Awaits node untilMs) :
    ∃ a, r.walk.promoted.current = some a ∧ a.node = node ∧
      a.retryUntilMs ≤ invoker.nowMs r.history := by
  obtain ⟨-, a, hcurrent, hnode, rfl⟩ := hawaits
  have hhistory : r.history = r.history.take k ++ [.waited node a.retryUntilMs throttle] := by
    calc r.history = r.history.take (k + 1) := by rw [← hlast, take_length]
      _ = r.history.take k ++ r.history[k]?.toList := take_add_one
      _ = r.history.take k ++ [.waited node a.retryUntilMs throttle] := by rw [hwait]; rfl
  refine ⟨a, ?_, hnode, ?_⟩
  · rw [Walk.promoted_of_current hcurrent, hcurrent]
  · rw [hhistory]
    exact punctual _ node _ throttle (sound.bounded a hcurrent)

/-- If the active node is not due, every wait so far was followed up: no attempt is waited for
twice. -/
theorem Sound.followedUp_of_early (active : r.walk.promoted.current = some a)
    (early : invoker.nowMs r.history < a.retryUntilMs) {k untilMs : ℕ} {node : String}
    (hwait : r.history[k]? = some (.waited node untilMs throttle)) :
    FollowedUp r.history k node := by
  rcases sound.followed k node untilMs throttle hwait with hfollowed | ⟨hlast, hawaits⟩
  · exact hfollowed
  · obtain ⟨b, hb, -, hdue⟩ := sound.due_of_last punctual hwait hlast hawaits
    obtain rfl : a = b := Option.some_inj.1 (active.symm.trans hb)
    omega

lemma Sound.waited (running : r.walk.status = .running)
    (active : r.walk.promoted.current = some a) (early : invoker.nowMs r.history < a.retryUntilMs)
    (heq : r' = ⟨r.walk.promoted, r.history ++
      [.clock (invoker.nowMs r.history), .waited a.node a.retryUntilMs a.throttle]⟩) :
    r'.Sound w ∧ r'.remaining w < r.remaining w := by
  subst heq
  constructor
  · exact {
      valid := Wiring.valid_next (.waiting a running active early) sound.valid
      counted := by
        rw [Walk.hops_promoted, sound.counted, invocations, invocations, countP_append]
        rfl
      limit := by
        rw [Walk.hops_promoted]
        exact sound.limit
      bounded := fun b hb => sound.bounded_promoted hb
      followed := by
        intro k node untilMs throttle hwait
        rcases getElem?_append_cases hwait with hold | ⟨i, rfl, hnew⟩
        · exact .inl ((sound.followedUp_of_early punctual active early hold).append _)
        · -- Of the two new events, the second is the wait, and the loop goes on to await it.
          right
          rcases i with _ | _ | i
          · cases hnew
          · obtain ⟨rfl, rfl, -⟩ := Event.waited.inj (Option.some_inj.1 hnew)
            refine ⟨by simp, ?_, a, active, rfl, rfl⟩
            rw [Walk.status_promoted, running]
          · cases hnew }
  · -- The walk did not wait before and does now, so the measure falls without a hop.
    have hwaits : r.waits = false := by
      by_contra htrue
      obtain ⟨k, node, untilMs, throttle, hwait, hnot⟩ :=
        exists_wait_of_waits (Bool.not_eq_false _ ▸ htrue)
      exact hnot (sound.followedUp_of_early punctual active early hwait)
    have hwaits' : (⟨r.walk.promoted, r.history ++ [.clock (invoker.nowMs r.history),
        .waited a.node a.retryUntilMs a.throttle]⟩ : Routing).waits = true := by
      simp [waits]
    rw [remaining, remaining, hwaits, hwaits', Walk.hops_promoted]
    simp

lemma Sound.invoked {node : WiringNode} {outcome : NodeOutcome} {walk : Walk}
    {nowMs appliedMs : ℕ} (h : w.Invokes lib r.walk nowMs a node outcome walk)
    (heq : r' = ⟨walk, r.history ++
      [.clock nowMs, .invoked (Wiring.nodeCall r.walk a node) outcome, .clock appliedMs]⟩) :
    r'.Sound w ∧ r'.remaining w < r.remaining w := by
  subst heq
  have hhops : walk.hops = r.walk.hops + 1 := by
    rw [h.applied.hops_eq, r.walk.hops_promoted]
  have hlimit := h.limit
  constructor
  · exact {
      valid := h.valid sound.valid
      counted := by
        rw [hhops, sound.counted, invocations, invocations, countP_append]
        rfl
      limit := by
        rw [hhops]
        exact h.limit
      bounded := by
        intro b hb
        obtain ⟨error, untilMs, throttle, -, -, -, bounded, rfl⟩ :=
          h.applied.retried_of_current h.active hb
        exact bounded
      followed := by
        intro k node' untilMs throttle hwait
        left
        rcases getElem?_append_cases hwait with hold | ⟨i, rfl, hnew⟩
        · rcases sound.followed k node' untilMs throttle hold with hfollowed | ⟨hlast, hawaits⟩
          · exact hfollowed.append _
          · -- The wait was the last event: this is the invocation that follows it.
            obtain ⟨b, hb, hnode, -⟩ := sound.due_of_last punctual hold hlast hawaits
            obtain rfl : a = b := Option.some_inj.1 (h.active.symm.trans hb)
            refine ⟨Wiring.nodeCall r.walk a node, outcome, ?_, hnode⟩
            rw [getElem?_append_right (by omega), hlast]
            simp
        · rcases i with _ | _ | _ | i
          · cases hnew
          · cases hnew
          · cases hnew
          · cases hnew }
  · have hwaits : (⟨walk, r.history ++ [.clock nowMs,
        .invoked (Wiring.nodeCall r.walk a node) outcome, .clock appliedMs]⟩ : Routing).waits =
        false := by
      simp [waits]
    rw [remaining, remaining, hwaits, hhops]
    simp only [Bool.false_eq_true, if_false]
    split <;> omega

end Routing

/-- What is true of what `route` returns. -/
structure Routed.Sound (w : Wiring) (routed : Routed) (history : List Event) : Prop where
  /-- The hops that are reported are the invocations that were made. -/
  counted : routed.hops = invocations history
  limit : invocations history ≤ w.hopLimit
  /-- A wait is followed by an invocation of its node, or that node met the hop limit. -/
  followed : ∀ k node untilMs throttle, history[k]? = some (.waited node untilMs throttle) →
    FollowedUp history k node ∨ history.length = k + 2 ∧ routed.status = .failed ∧
      ∃ detail, routed.failure = some ⟨node, .hopLimit, detail⟩

variable {status : WalkStatus}

lemma hops_of_done {walk walk' : Walk} {nowMs : ℕ} (h : Nexts w nowMs walk (.done status) walk') :
    walk'.hops = walk.hops := by
  cases h with
  | ended | unreleased | settled => rfl
  | spent => exact walk.hops_promoted

lemma Routing.Sound.returned (sound : r.Sound w) (punctual : invoker.Punctual) {walk : Walk}
    (next : Nexts w (invoker.nowMs r.history) r.walk (.done status) walk) :
    (walk.report status).Sound w (r.history ++ [.clock (invoker.nowMs r.history)]) := by
  have hcount : invocations (r.history ++ [.clock (invoker.nowMs r.history)]) =
      invocations r.history := by
    rw [invocations, invocations, countP_append]
    rfl
  exact {
    counted := by
      rw [hcount, ← sound.counted]
      exact hops_of_done next
    limit := by
      rw [hcount, ← sound.counted]
      exact sound.limit
    followed := by
      intro k node untilMs throttle hwait
      rcases getElem?_append_cases hwait with hold | ⟨i, rfl, hnew⟩
      · rcases sound.followed k node untilMs throttle hold with hfollowed | ⟨hlast, hawaits⟩
        · exact .inl (hfollowed.append _)
        · right
          obtain ⟨a, hactive, hnode, hdue⟩ := sound.due_of_last punctual hold hlast hawaits
          obtain ⟨hrunning, b, hcurrent, -⟩ := hawaits
          refine ⟨by simp [hlast], ?_⟩
          -- The node that waited is still active and due, so only the hop limit can end the walk.
          cases next with
          | ended terminal =>
            rw [hrunning] at terminal
            cases terminal
          | unreleased _ idle | settled _ idle =>
            rw [idle] at hcurrent
            cases hcurrent
          | spent c _ active _ _ detail =>
            obtain rfl : a = c := Option.some_inj.1 (hactive.symm.trans active)
            rw [← hnode]
            exact ⟨rfl, detail, rfl⟩
      · rcases i with _ | i
        · cases hnew
        · cases hnew }

lemma Routing.sound_start (w : Wiring) (delivery : Delivery) :
    (Routing.start w delivery).Sound w where
  valid := w.valid_start delivery
  counted := rfl
  limit := Nat.zero_le _
  bounded := by simp [start, Wiring.start]
  followed := by simp [start]

/-- `route` returns, without a panic, after at most as many invocations as the hop limit allows. It
reports as hops the invocations that were made, and each wait was followed by an invocation of the
node that waited or ended with it at the hop limit. -/
theorem route_returns (lib : Library) (delivery : Delivery) (w : Wiring) (invoker : NodeInvoker)
    (punctual : invoker.Punctual) :
    ∃ routed history, Routed.Sound w routed history ∧ ∀ fuel, 2 * w.hopLimit + 1 < fuel →
      route lib delivery w invoker fuel = .ok (some (routed, history)) := by
  -- Every iteration returns or brings the loop nearer to its end.
  have hturn : ∀ r : Routing, r.Sound w →
      (∃ r', turn lib w invoker r = .ok (.inl r') ∧ r'.Sound w ∧ r'.remaining w < r.remaining w) ∨
      ∃ result, turn lib w invoker r = .ok (.inr result) ∧
        Routed.Sound w result.1 result.2 := by
    intro r sound
    obtain ⟨result, hresult, hturns⟩ := turn_spec lib invoker sound.valid
    cases hturns with
    | returned status walk next => exact .inr ⟨_, hresult, sound.returned punctual next⟩
    | waited a running active early =>
      exact .inl ⟨_, hresult, sound.waited punctual running active early rfl⟩
    | invoked a node outcome walk appliedMs invokes =>
      exact .inl ⟨_, hresult, sound.invoked punctual invokes rfl⟩
  obtain ⟨⟨routed, history⟩, hsound, hloop⟩ :=
    loop_returns (Routing.remaining w) hturn (Routing.sound_start w delivery)
  refine ⟨routed, history, hsound, fun fuel hfuel => hloop fuel ?_⟩
  have hstart : (Routing.start w delivery).remaining w = 2 * w.hopLimit + 1 := rfl
  omega

namespace Sample

/-- A clock that stands still but for the waits, and a first invocation that asks for a retry. -/
def retryOnce : NodeInvoker where
  invoke history _ :=
    if invocations history = 0 then .error (.retryable (.coded "busy" "try again"))
    else .success .null mainPort
  nowMs history :=
    match history.getLast? with
    | some (.waited _ untilMs _) => untilMs
    | _ => 0

/-- The host that asks for one retry gets its delivery routed. -/
theorem route_retryOnce : ∃ w, answerOrReport = .ok w ∧ retryOnce.Punctual ∧
    ∃ routed history, Routed.Sound w routed history ∧ ∀ fuel, 2 * w.hopLimit + 1 < fuel →
      route ⟨id, fun _ _ _ => none⟩ ⟨"d", .null, true⟩ w retryOnce fuel =
        .ok (some (routed, history)) := by
  have hpunctual : retryOnce.Punctual := by
    intro history node untilMs throttle _
    simp [retryOnce]
  exact ⟨_, rfl, hpunctual, route_returns _ _ _ _ hpunctual⟩

end Sample

end Wamn.Workflow.Router
