import Mathlib.Data.List.Basic
import Mathlib.Logic.Function.Basic
import Wamn.Lib.Transition

/-!
# The forward of an edge

An edge stores the sample of every finished device call and forwards the samples, one request each,
in passes. After a pass that leaves none it waits until a finish notifies it; after one that did not
reach the platform, or whose token was refused, it waits for a backoff. Refused tokens in a row stop
it.

A finish may be dropped at any await while the transaction that it spawned completes, so samples,
notification and forward meet in any order.
-/

namespace Wamn.Edge

open List Lib Function

/-! ## Answers -/

inductive Answer where
  | accepted
  | refused (reason : String)
  | unreachable (error : String)
  | credential (error : String)
  deriving DecidableEq

/-- What the body of a response says about the sample: an error, a value, or nothing. -/
inductive RequestElement where
  | error (text : String)
  | value
  | none
  deriving DecidableEq

/-- A response, with the beginning of its body as text. -/
structure Response where
  status : ℕ
  body : String
  element : RequestElement
  deriving DecidableEq

def answer (response : Response) : Answer :=
  let status := response.status
  let text := "status " ++ toString status ++ ": " ++ response.body
  if status = 401 ∨ status = 403 then .credential text
  else if 500 ≤ status ∧ status < 600 ∨ status = 408 ∨ status = 429 then .unreachable text
  else if ¬ (200 ≤ status ∧ status < 300) then .refused text
  else match response.element with
    | .error error => .refused error
    | .value => .accepted
    | .none => .unreachable ("the platform answered no request element: " ++ text)

/-- What came of one request. A sample that `key_field` cannot be written into is not sent. -/
inductive Exchange where
  | unwritable (reason : String)
  | failed (error : String)
  | answered (response : Response)
  deriving DecidableEq

def send : Exchange → Answer
  | .unwritable reason => .refused reason
  | .failed error => .unreachable error
  | .answered response => answer response

/-- What the forward learned about the sample. A failed connection tells nothing. -/
def Exchange.received : Exchange → List Answer
  | .failed _ => []
  | exchange => [send exchange]

def Answer.isCredential : Answer → Bool
  | .credential _ => true
  | _ => false

/-! ## The edge -/

inductive Pass where
  | done
  | unreachable
  | credential
  deriving DecidableEq

/-- Where the forward is. A read has its answer before the forward continues with it. -/
inductive Phase where
  | reading
  | fetched (batch : List ℕ)
  | sending (sample : ℕ) (batch : List ℕ)
  | waiting
  | sleeping
  | halted
  | returned
  deriving DecidableEq

/-- The `for` over the rest of a batch, and the next read after it. -/
def Phase.ofBatch : List ℕ → Phase
  | [] => .reading
  | sample :: batch => .sending sample batch

/-- A finish whose transaction is out, stored its sample, or failed; `abandoned` if it was dropped
with its transaction out, `lost` if its sample is stored and it will not notify. -/
inductive FinishPhase where
  | transacting
  | stored
  | failed
  | abandoned
  | lost
  | ended
  deriving DecidableEq

def FinishPhase.Running : FinishPhase → Prop
  | .transacting | .stored | .failed => True
  | _ => False

/-- A pass that ended, with what the forward learned in it, the newest first. -/
structure PassRecord where
  answers : List Answer
  ended : Pass
  deriving DecidableEq

/-- The edge; a sample and its finish share their number. `permit` is that of `Notify`, `answers`
and `passes` are what the forward learned in its current pass and those before, newest first. -/
structure State where
  pending : List ℕ
  finishes : ℕ → Option FinishPhase := fun _ => none
  permit : Bool := false
  phase : Phase := .reading
  inARow : ℕ := 0
  backoff : ℕ := 5
  credentialFailures : ℕ := 0
  credentialStop : Bool := false
  answers : List Answer := []
  passes : List PassRecord := []

def passSize : ℕ := 16

/-- `FIRST_BACKOFF` and `LAST_BACKOFF`, in seconds. -/
def firstBackoff : ℕ := 5

def lastBackoff : ℕ := 900

namespace State

/-- The end of a pass, up to where it waits. `wait_stored` takes the permit if there is one. -/
def endPass (bound : ℕ) (s : State) (pass : Pass) : State :=
  let s := { s with passes := ⟨s.answers, pass⟩ :: s.passes, answers := [] }
  match pass with
  | .done =>
    if s.permit then
      { s with inARow := 0, permit := false, phase := .reading, backoff := firstBackoff }
    else { s with inARow := 0, phase := .waiting }
  | .unreachable => { s with phase := .sleeping }
  | .credential =>
    if bound ≤ s.inARow + 1 then
      { s with inARow := s.inARow + 1, credentialStop := true, phase := .halted }
    else { s with inARow := s.inARow + 1, phase := .sleeping }

/-- One sample of a pass, where `recorded` tells whether the store took the outcome. -/
def sent (bound : ℕ) (s : State) (sample : ℕ) (batch : List ℕ) (exchange : Exchange)
    (recorded : Bool) : State :=
  let s := { s with answers := exchange.received ++ s.answers }
  match send exchange with
  | .accepted | .refused _ =>
    if recorded then
      { s with pending := s.pending.filter (· ≠ sample), phase := .ofBatch batch }
    else s.endPass bound .unreachable
  | .unreachable _ => s.endPass bound .unreachable
  | .credential _ =>
    { s with credentialFailures := s.credentialFailures + 1 }.endPass bound .credential

/-- Wake the forward if it waits, and keep a permit otherwise. -/
def notifyOne (s : State) : State :=
  if s.phase = .waiting then { s with phase := .reading, backoff := firstBackoff }
  else { s with permit := true }

def setFinish (s : State) (i : ℕ) (phase : FinishPhase) : State :=
  { s with finishes := update s.finishes i (some phase) }

end State

/-- What happens next: a step of the forward, or one of the finish with a number. -/
inductive Label where
  | read (ok : Bool)
  | resume
  | send (exchange : Exchange) (recorded : Bool)
  | elapse
  | stop
  | begin (i : ℕ)
  | commit (i : ℕ) (ok : Bool)
  | complete (i : ℕ)
  | drop (i : ℕ)
  deriving DecidableEq

def step (bound : ℕ) (s : State) : Label → State
  | .read ok =>
    if s.phase = .reading then
      if ok then { s with phase := .fetched (s.pending.take passSize) }
      else s.endPass bound .unreachable
    else s
  | .resume =>
    match s.phase with
    | .fetched [] => s.endPass bound .done
    | .fetched (sample :: batch) => { s with phase := .sending sample batch }
    | _ => s
  | .send exchange recorded =>
    match s.phase with
    | .sending sample batch => s.sent bound sample batch exchange recorded
    | _ => s
  | .elapse =>
    if s.phase = .sleeping then
      { s with phase := .reading, backoff := min (s.backoff * 2) lastBackoff }
    else s
  | .stop => { s with phase := .returned }
  | .begin i => if s.finishes i = none then s.setFinish i .transacting else s
  | .commit i ok =>
    match s.finishes i with
    | some .transacting =>
      if ok then { s with pending := s.pending ++ [i] }.setFinish i .stored
      else s.setFinish i .failed
    | some .abandoned =>
      if ok then { s with pending := s.pending ++ [i] }.setFinish i .lost
      else s.setFinish i .ended
    | _ => s
  | .complete i =>
    match s.finishes i with
    | some .stored => (s.setFinish i .ended).notifyOne
    | some .failed => s.setFinish i .ended
    | _ => s
  | .drop i =>
    match s.finishes i with
    | some .transacting => s.setFinish i .abandoned
    | some .stored => s.setFinish i .lost
    | some .failed => s.setFinish i .ended
    | _ => s

/-- The edge after the labels, started with these samples pending. -/
def after (bound : ℕ) (pending : List ℕ) (labels : List Label) : State :=
  labels.foldl (step bound) { pending }

/-- What one sample of a pass can do. Only the third tells that the token is refused. -/
theorem sent_cases (bound : ℕ) (s : State) (sample : ℕ) (batch : List ℕ) (exchange : Exchange)
    (recorded : Bool) :
    (∀ a ∈ exchange.received, a.isCredential = false) ∧
        (s.sent bound sample batch exchange recorded =
          { s with
            answers := exchange.received ++ s.answers
            pending := s.pending.filter (· ≠ sample)
            phase := .ofBatch batch } ∨
        s.sent bound sample batch exchange recorded =
          { s with answers := exchange.received ++ s.answers }.endPass bound .unreachable) ∨
      (∃ a, exchange.received = [a] ∧ a.isCredential) ∧
        s.sent bound sample batch exchange recorded =
          { s with
            answers := exchange.received ++ s.answers
            credentialFailures := s.credentialFailures + 1 }.endPass bound .credential := by
  have hreceived : ∀ a ∈ exchange.received, a = send exchange := by
    cases exchange <;> simp [Exchange.received]
  simp only [State.sent]
  cases hanswer : send exchange with
  | accepted | refused _ =>
    refine .inl ⟨fun a ha => by rw [hreceived a ha, hanswer]; rfl, ?_⟩
    cases recorded <;> simp
  | unreachable _ => exact .inl ⟨fun a ha => by rw [hreceived a ha, hanswer]; rfl, .inr rfl⟩
  | credential error =>
    refine .inr ⟨⟨send exchange, ?_, by rw [hanswer]; rfl⟩, rfl⟩
    cases exchange with
    | failed _ => cases hanswer
    | _ => rfl

/-- What a step of the edge can do. -/
inductive Moves (bound : ℕ) (s : State) : State → Prop where
  /-- The label does not apply here. -/
  | same : Moves bound s s
  | fetched (hphase : s.phase = .reading) :
      Moves bound s { s with phase := .fetched (s.pending.take passSize) }
  | unread (hphase : s.phase = .reading) : Moves bound s (s.endPass bound .unreachable)
  | emptied (hphase : s.phase = .fetched []) : Moves bound s (s.endPass bound .done)
  | taken (sample : ℕ) (batch : List ℕ) (hphase : s.phase = .fetched (sample :: batch)) :
      Moves bound s { s with phase := .sending sample batch }
  | sent (sample : ℕ) (batch : List ℕ) (exchange : Exchange) (recorded : Bool)
      (hphase : s.phase = .sending sample batch) :
      Moves bound s (s.sent bound sample batch exchange recorded)
  | elapsed (hphase : s.phase = .sleeping) :
      Moves bound s { s with phase := .reading, backoff := min (s.backoff * 2) lastBackoff }
  | stopped : Moves bound s { s with phase := .returned }
  /-- A finish goes on without a notification. One whose sample is stored is then lost. -/
  | finish (i : ℕ) (phase : FinishPhase) (hstored : s.finishes i = some .stored → phase = .lost)
      (hlost : s.finishes i ≠ some .lost) : Moves bound s (s.setFinish i phase)
  | stored (i : ℕ) (phase : FinishPhase) (hphase : phase = .stored ∨ phase = .lost) :
      Moves bound s ({ s with pending := s.pending ++ [i] }.setFinish i phase)
  | notified (i : ℕ) : Moves bound s (s.setFinish i .ended).notifyOne

lemma moves_step (bound : ℕ) (s : State) (label : Label) :
    Moves bound s (step bound s label) := by
  unfold step
  split
  · split
    · rename_i hphase
      split
      · exact .fetched hphase
      · exact .unread hphase
    · exact .same
  · split
    · exact .emptied ‹_›
    · exact .taken _ _ ‹_›
    · exact .same
  · split
    · exact .sent _ _ _ _ ‹_›
    · exact .same
  · split
    · exact .elapsed ‹_›
    · exact .same
  · exact .stopped
  · split
    · rename_i hfinish
      exact .finish _ _ (by simp [hfinish]) (by simp [hfinish])
    · exact .same
  · split
    · rename_i hfinish
      split
      · exact .stored _ _ (.inl rfl)
      · exact .finish _ _ (by simp [hfinish]) (by simp [hfinish])
    · rename_i hfinish
      split
      · exact .stored _ _ (.inr rfl)
      · exact .finish _ _ (by simp [hfinish]) (by simp [hfinish])
    · exact .same
  · split
    · exact .notified _
    · rename_i hfinish
      exact .finish _ _ (by simp [hfinish]) (by simp [hfinish])
    · exact .same
  · split
    · rename_i hfinish
      exact .finish _ _ (by simp [hfinish]) (by simp [hfinish])
    · rename_i hfinish
      exact .finish _ _ (fun _ => rfl) (by simp [hfinish])
    · rename_i hfinish
      exact .finish _ _ (by simp [hfinish]) (by simp [hfinish])
    · exact .same

/-! ## The streak of refused tokens -/

namespace State

/-- The passes since one left no sample pending. -/
def streak (s : State) : List PassRecord := s.passes.takeWhile (·.ended ≠ .done)

/-- What the forward learned, the newest first. -/
def received (s : State) : List Answer := s.answers ++ s.passes.flatMap PassRecord.answers

/-- What it learned in the passes since one left no sample pending. -/
def learned (s : State) : List Answer := s.streak.flatMap PassRecord.answers

/-- Since a pass left none pending, no other answer came after the first refused token. -/
def OnlyRefused (s : State) : Prop :=
  ∀ later a earlier, s.learned = later ++ a :: earlier → (∃ b ∈ earlier, b.isCredential) →
    a.isCredential

end State

/-- What is true of the count of refused tokens. -/
structure Counted (bound : ℕ) (s : State) : Prop where
  inARow : s.inARow = s.learned.countP Answer.isCredential
  /-- A refused token ends its pass. -/
  current : ∀ a ∈ s.answers, a.isCredential = false
  running : s.credentialStop = false → s.inARow = 0 ∨ s.inARow < bound
  halted : s.credentialStop = true → bound ≤ s.inARow ∧ s.inARow ≤ max bound 1 ∧
    s.answers = [] ∧ (s.phase = .halted ∨ s.phase = .returned)

section Counted

variable {bound : ℕ} {s : State}

section

variable (h : Counted bound s)

include h

lemma Counted.endPass (hstop : s.credentialStop = false) {pass : Pass} {answers : List Answer}
    {failures : ℕ}
    (hanswers : answers.countP Answer.isCredential = if pass = .credential then 1 else 0) :
    Counted bound
      ({ s with answers := answers, credentialFailures := failures }.endPass bound pass) := by
  have hinARow := h.inARow
  have hrunning := h.running hstop
  cases pass with
  | done =>
    simp only [State.endPass]
    split <;> exact ⟨by simp [State.learned, State.streak], nofun, fun _ => .inl rfl,
      by simp [hstop]⟩
  | unreachable =>
    refine ⟨?_, nofun, h.running, by simp [State.endPass, hstop]⟩
    simpa [State.endPass, State.learned, State.streak, hanswers] using hinARow
  | credential =>
    have hcount : s.inARow + 1 = (answers ++ s.learned).countP Answer.isCredential := by
      rw [countP_append, hanswers, hinARow, if_pos rfl, Nat.add_comm]
    simp only [State.endPass]
    split
    · rename_i hbound
      exact ⟨hcount, nofun, nofun, fun _ => ⟨hbound, by simp only; omega, rfl, .inl rfl⟩⟩
    · rename_i hbound
      exact ⟨hcount, nofun, fun _ => .inr (Nat.lt_of_not_le hbound), by simp [hstop]⟩

lemma Counted.frame {t : State} (hpasses : t.passes = s.passes) (hinARow : t.inARow = s.inARow)
    (hstop : t.credentialStop = s.credentialStop) (hanswers : t.answers = s.answers)
    (hphase : s.phase = .halted ∨ s.phase = .returned → t.phase = .halted ∨ t.phase = .returned) :
    Counted bound t where
  inARow := by
    rw [hinARow, h.inARow, State.learned, State.learned, State.streak, State.streak, hpasses]
  current := hanswers ▸ h.current
  running := by
    rw [hstop, hinARow]
    exact h.running
  halted ht := by
    obtain ⟨hbound, hmax, hnil, hhalted⟩ := h.halted (hstop ▸ ht)
    exact ⟨hinARow ▸ hbound, hinARow ▸ hmax, hanswers.trans hnil, hphase hhalted⟩

lemma Counted.stop_eq_false (hhalted : s.phase ≠ .halted) (hreturned : s.phase ≠ .returned) :
    s.credentialStop = false := by
  refine Bool.eq_false_iff.2 fun hstop => ?_
  rcases (h.halted hstop).2.2.2 with hphase | hphase
  · exact hhalted hphase
  · exact hreturned hphase

lemma Counted.countP_answers : s.answers.countP Answer.isCredential = 0 :=
  countP_eq_zero.2 fun a ha => by simp [h.current a ha]

lemma Counted.sent (hstop : s.credentialStop = false) (sample : ℕ) (batch : List ℕ)
    (exchange : Exchange) (recorded : Bool) :
    Counted bound (s.sent bound sample batch exchange recorded) := by
  rcases sent_cases bound s sample batch exchange recorded with
    ⟨hother, heq | heq⟩ | ⟨⟨a, hreceived, ha⟩, heq⟩
  · rw [heq]
    exact ⟨h.inARow, forall_mem_append.2 ⟨hother, h.current⟩, h.running, by simp [hstop]⟩
  · rw [heq]
    refine h.endPass hstop (countP_eq_zero.2 fun a ha => ?_)
    simp [forall_mem_append.2 ⟨hother, h.current⟩ a ha]
  · rw [heq]
    refine h.endPass hstop ?_
    simp [hreceived, ha, h.countP_answers]

lemma Counted.step {t : State} (hmoves : Moves bound s t) : Counted bound t := by
  cases hmoves with
  | same => exact h
  | fetched hphase | elapsed hphase | taken _ _ hphase =>
    exact h.frame rfl rfl rfl rfl (by simp [hphase])
  | unread hphase | emptied hphase =>
    exact h.endPass (h.stop_eq_false (by simp [hphase]) (by simp [hphase])) h.countP_answers
  | sent sample batch exchange recorded hphase =>
    exact h.sent (h.stop_eq_false (by simp [hphase]) (by simp [hphase])) _ _ _ _
  | stopped => exact h.frame rfl rfl rfl rfl fun _ => .inr rfl
  | finish | stored => exact h.frame rfl rfl rfl rfl id
  | notified i =>
    unfold State.notifyOne
    split
    · rename_i hphase
      have hphase : s.phase = .waiting := hphase
      exact h.frame rfl rfl rfl rfl (by simp [hphase])
    · exact h.frame rfl rfl rfl rfl id

end

/-- The marked elements of a list come first exactly if none of the others has one behind it. -/
theorem forall_mem_take_countP_iff {α : Type} {p : α → Bool} {l : List α} :
    (∀ a ∈ l.take (l.countP p), p a) ↔
      ∀ later a earlier, l = later ++ a :: earlier → (∃ b ∈ earlier, p b) → p a := by
  induction l with
  | nil => simp
  | cons x l ih =>
    by_cases hx : p x = true
    · rw [countP_cons_of_pos hx, take_succ_cons, forall_mem_cons, ih]
      constructor
      · rintro ⟨-, h⟩ later a earlier heq
        cases later with
        | nil =>
          obtain ⟨rfl, -⟩ := List.cons.inj heq
          exact fun _ => hx
        | cons y later => exact h later a earlier (List.cons.inj heq).2
      · exact fun h => ⟨hx, fun later a earlier heq => h (x :: later) a earlier (heq ▸ rfl)⟩
    · -- The first is not marked, so nothing may be.
      have hnone : (∀ a ∈ (x :: l).take (l.countP p), p a) ↔ l.countP p = 0 := by
        cases l.countP p <;> simp [hx]
      rw [countP_cons_of_neg hx, hnone, countP_eq_zero]
      constructor
      · rintro h later a earlier heq ⟨b, hb, hpb⟩
        refine absurd hpb (h b ?_)
        cases later with
        | nil => exact (List.cons.inj heq).2 ▸ hb
        | cons y later => rw [(List.cons.inj heq).2]; simp [hb]
      · exact fun h b hb hpb => hx (h [] x l rfl ⟨b, hb, hpb⟩)

end Counted

/-- The forward stops on tokens refused in a row exactly if, since a pass left no sample pending, no
other answer came after the first refused token. -/
theorem credentialStop_inARow (bound : ℕ) (pending : List ℕ) (labels : List Label)
    (hstop : (after bound pending labels).credentialStop = true) :
    ((after bound pending labels).OnlyRefused →
      bound ≤ (after bound pending labels).received.length ∧
        ∀ a ∈ (after bound pending labels).received.take bound, a.isCredential) ∧
    (0 < bound → (∀ a ∈ (after bound pending labels).received.take bound, a.isCredential) →
      (after bound pending labels).OnlyRefused) := by
  have hstart : Counted bound { pending } := ⟨rfl, nofun, fun _ => .inl rfl, nofun⟩
  have h : Counted bound (after bound pending labels) :=
    invariant_foldl (fun s label h => h.step (moves_step bound s label)) hstart labels
  generalize after bound pending labels = s at *
  obtain ⟨hbound, hmax, hanswers, -⟩ := h.halted hstop
  rw [h.inARow] at hbound hmax
  obtain ⟨rest, hrest⟩ : ∃ rest, s.passes = s.streak ++ rest :=
    ⟨_, (takeWhile_append_dropWhile ..).symm⟩
  have hreceived : s.received = s.learned ++ rest.flatMap PassRecord.answers := by
    rw [State.received, hanswers, hrest, flatMap_append, nil_append, State.learned]
  have hlength : bound ≤ s.learned.length := Nat.le_trans hbound countP_le_length
  rw [hreceived, take_append_of_le_length hlength, length_append, State.OnlyRefused,
    ← forall_mem_take_countP_iff]
  refine ⟨fun hfirst => ⟨by omega, fun a ha => hfirst a ?_⟩, fun hpos hfirst => ?_⟩
  · exact (take_sublist_take_left hbound).subset ha
  · rwa [show s.learned.countP Answer.isCredential = bound by omega]

namespace Sample

def refusedToken : Exchange := .answered ⟨401, "expired", .none⟩

def taken : Exchange := .answered ⟨200, "", .value⟩

/-- A token is refused, then the sample taken, and the token refused for the next one. -/
def renewed : List Label :=
  [.read true, .resume, .send refusedToken true, .elapse, .read true, .resume, .send taken true,
    .send refusedToken true]

/-- The forward stops although the platform took a sample between the two refusals. -/
theorem stops_after_accepted :
    (after 2 [1, 2] renewed).credentialStop = true ∧
    (after 2 [1, 2] renewed).received.map Answer.isCredential = [true, false, true] := by
  decide

/-- The platform takes a sample and then refuses the token twice. -/
def revoked : List Label :=
  [.read true, .resume, .send taken true, .send refusedToken true, .elapse, .read true, .resume,
    .send refusedToken true]

theorem stops_in_a_row : (after 2 [1, 2] revoked).credentialStop = true ∧
    (after 2 [1, 2] revoked).OnlyRefused ∧
    ∀ a ∈ (after 2 [1, 2] revoked).received.take 2, a.isCredential := by
  have hstop : (after 2 [1, 2] revoked).credentialStop = true := by decide
  obtain ⟨honly, hconverse⟩ := credentialStop_inARow 2 [1, 2] revoked hstop
  have hrefused := hconverse (by decide) (by decide)
  exact ⟨hstop, hrefused, (honly hrefused).2⟩

end Sample

/-! ## Wake-ups -/

/-- The samples of finishes that have yet to notify or never will. -/
def Unnotified (s : State) : Prop :=
  ∀ i ∈ s.pending, s.finishes i = some .stored ∨ s.finishes i = some .lost

/-- While the forward waits or is about to, it will be woken for each sample, unless the finish is
lost. -/
structure Awaited (s : State) : Prop where
  fetched : s.phase = .fetched [] → s.permit = true ∨ Unnotified s
  waiting : s.phase = .waiting → s.permit = false ∧ Unnotified s

section Awaited

variable {bound : ℕ} {s : State}

lemma Unnotified.setFinish (h : Unnotified s) {i : ℕ} {phase : FinishPhase}
    (hphase : s.finishes i = some .stored → phase = .lost)
    (hfresh : s.finishes i ≠ some .lost) : Unnotified (s.setFinish i phase) := by
  intro j hj
  by_cases heq : j = i
  · subst heq
    rcases h j hj with hstored | hlost
    · simp [State.setFinish, hphase hstored]
    · exact absurd hlost hfresh
  · simpa [State.setFinish, update_of_ne heq] using h j hj

lemma Unnotified.append (h : Unnotified s) {i : ℕ} {phase : FinishPhase}
    (hphase : phase = .stored ∨ phase = .lost) :
    Unnotified ({ s with pending := s.pending ++ [i] }.setFinish i phase) := by
  intro j hj
  by_cases heq : j = i
  · simpa [heq, State.setFinish] using hphase
  · have hj : j ∈ s.pending := by simpa [State.setFinish, heq] using hj
    simpa [State.setFinish, update_of_ne heq] using h j hj

/-- What happens to a finish, apart from its notification, keeps what is true of the samples. -/
theorem Awaited.frame (h : Awaited s) {t : State} (hphase : t.phase = s.phase)
    (hpermit : t.permit = s.permit) (hsamples : Unnotified s → Unnotified t) : Awaited t where
  fetched ht := by
    rw [hpermit]
    exact (h.fetched (hphase ▸ ht)).imp_right hsamples
  waiting ht := by
    rw [hpermit]
    exact (h.waiting (hphase ▸ ht)).imp_right hsamples

lemma Awaited.of_phase {t : State} (hfetched : t.phase ≠ .fetched [])
    (hwaiting : t.phase ≠ .waiting) : Awaited t :=
  ⟨fun h => absurd h hfetched, fun h => absurd h hwaiting⟩

lemma Awaited.step (h : Awaited s) {t : State} (hmoves : Moves bound s t) : Awaited t := by
  cases hmoves with
  | same => exact h
  | fetched hphase =>
    -- No sample was pending if the read returned none.
    refine ⟨fun ht => .inr ?_, nofun⟩
    have hnil : s.pending = [] := by simpa [passSize] using ht
    simp [Unnotified, hnil]
  | emptied hphase =>
    simp only [State.endPass]
    split
    · exact .of_phase nofun nofun
    · rename_i hpermit
      exact ⟨nofun, fun _ => ⟨by simpa using hpermit, (h.fetched hphase).resolve_left hpermit⟩⟩
  | sent sample batch exchange recorded hphase =>
    rcases sent_cases bound s sample batch exchange recorded with ⟨-, heq | heq⟩ | ⟨-, heq⟩
    · rw [heq]
      cases batch <;> exact .of_phase nofun nofun
    · rw [heq]
      exact .of_phase nofun nofun
    · rw [heq, State.endPass]
      split <;> exact .of_phase nofun nofun
  | unread | taken | elapsed | stopped => exact .of_phase nofun nofun
  | finish i phase hstored hlost => exact h.frame rfl rfl fun hs => hs.setFinish hstored hlost
  | stored i phase hphase => exact h.frame rfl rfl fun hs => hs.append hphase
  | notified i =>
    unfold State.notifyOne
    split
    · exact .of_phase nofun nofun
    · rename_i hphase
      exact ⟨fun _ => .inl rfl, fun ht => absurd ht hphase⟩

end Awaited

/-- While the forward is blocked, every pending sample is one of a finish that still runs, unless
that was dropped. -/
theorem waiting_running (bound : ℕ) (pending : List ℕ) (labels : List Label)
    (hwaiting : (after bound pending labels).phase = .waiting)
    (hkept : ∀ i ∈ (after bound pending labels).pending,
      (after bound pending labels).finishes i ≠ some .lost) :
    ∀ i ∈ (after bound pending labels).pending,
      ∃ phase, (after bound pending labels).finishes i = some phase ∧ phase.Running := by
  have hstart : Awaited { pending } := ⟨nofun, nofun⟩
  have h : Awaited (after bound pending labels) :=
    invariant_foldl (fun s label h => h.step (moves_step bound s label)) hstart labels
  intro i hi
  rcases (h.waiting hwaiting).2 i hi with hstored | hlost
  · exact ⟨.stored, hstored, trivial⟩
  · exact absurd hlost (hkept i hi)

namespace Sample

/-- A finish is dropped with its transaction out. Its sample is stored, and waits for the next
one. -/
theorem dropped_finish_waits :
    let s := after 2 [] [.read true, .resume, .begin 1, .drop 1, .commit 1 true]
    s.phase = .waiting ∧ s.permit = false ∧ s.pending = [1] ∧ s.finishes 1 = some .lost := by
  decide

theorem stored_finish_runs :
    let s := after 2 [] [.read true, .resume, .begin 1, .commit 1 true]
    s.phase = .waiting ∧ ∀ i ∈ s.pending, ∃ phase, s.finishes i = some phase ∧ phase.Running :=
  ⟨by decide, waiting_running 2 [] _ (by decide) (by decide)⟩

end Sample

/-! ## Samples -/

lemma pending_endPass (bound : ℕ) (s : State) (pass : Pass) :
    (s.endPass bound pass).pending = s.pending := by
  cases pass <;> simp only [State.endPass] <;> split_ifs <;> rfl

lemma pending_notifyOne (s : State) : s.notifyOne.pending = s.pending := by
  unfold State.notifyOne
  split <;> rfl

def Answer.Settles (a : Answer) : Prop := a = .accepted ∨ ∃ reason, a = .refused reason

lemma settles_of_not_mem {bound i : ℕ} {s : State} {label : Label} (hi : i ∈ s.pending)
    (hgone : i ∉ (step bound s label).pending) : ∃ exchange batch,
      label = .send exchange true ∧ s.phase = .sending i batch ∧ (send exchange).Settles := by
  cases label with
  | send exchange recorded =>
    simp only [step] at hgone
    split at hgone
    · rename_i sample batch hphase
      -- An answer that settles nothing ends the pass, and so does a store that fails.
      cases hanswer : send exchange <;> cases recorded <;>
        simp only [State.sent, hanswer, Bool.false_eq_true, if_false, pending_endPass, hi,
          not_true_eq_false] at hgone
      all_goals
        obtain rfl : i = sample := by simpa [hi] using hgone
        exact ⟨exchange, batch, rfl, hphase, by simp [Answer.Settles, hanswer]⟩
    · exact absurd hi hgone
  | _ =>
    refine absurd ?_ hgone
    unfold step
    dsimp only
    repeat' split
    all_goals simp [pending_endPass, pending_notifyOne, State.setFinish, hi]

/-- **A stored sample stays until it is settled.** A sample that was pending and is not any more
came up in a pass, was accepted or refused there, and the store recorded that. -/
theorem pending_until_settled (bound : ℕ) (s : State) (labels : List Label) {i : ℕ}
    (hi : i ∈ s.pending) (hgone : i ∉ (labels.foldl (step bound) s).pending) :
    ∃ before exchange rest batch, labels = before ++ .send exchange true :: rest ∧
      (before.foldl (step bound) s).phase = .sending i batch ∧ (send exchange).Settles := by
  obtain ⟨before, label, rest, rfl, hbefore, hafter⟩ :=
    exists_step_of_foldl (P := fun s : State => i ∉ s.pending) (not_not.2 hi) hgone
  obtain ⟨exchange, batch, rfl, hphase, hsettles⟩ := settles_of_not_mem (not_not.1 hbefore) hafter
  exact ⟨before, exchange, rest, batch, rfl, hphase, hsettles⟩

/-- The first of two samples is accepted after a refused token. -/
theorem Sample.renewed_settles : ∃ before exchange rest batch,
    renewed = before ++ .send exchange true :: rest ∧
      (before.foldl (step 2) { pending := [1, 2] }).phase = .sending 1 batch ∧
      (send exchange).Settles :=
  pending_until_settled 2 { pending := [1, 2] } renewed (by decide) (by decide)

end Wamn.Edge
