import Wamn.ResourceLease.SessionSteps

/-!
# Calls of an exclusive resource exclude each other

`held` loads the state of the lease and then its epoch. It answers true to a call that saw the lease
held and has its epoch.
-/

namespace Wamn.ResourceLease

open Lib Function

variable {h : Host}

def Host.InProgress (h : Host) (i : ℕ) : Prop :=
  ∃ e, (h.calls i).phase.running? = some e

/-- `held` answers the call with true, now or after the load of the epoch. -/
def Host.Answers (h : Host) (i : ℕ) : Prop :=
  match (h.calls i).phase with
  | .running e => h.state (h.calls i).lease = .held ∧ e = h.epoch (h.calls i).lease
  | .asking e => e = h.epoch (h.calls i).lease
  | _ => False

instance (h : Host) (i : ℕ) : Decidable (h.Answers i) := by
  unfold Host.Answers
  split <;> infer_instance

variable {i j : ℕ} {a : Action}

lemma Host.Answers.running? (hi : h.Answers i) :
    (h.calls i).phase.running? = some (h.epoch (h.calls i).lease) := by
  unfold Host.Answers at hi
  split at hi
  · simp_all
  · simp_all
  · cases hi

/-! ## One call of a key -/

section

variable (hs : Sound h)

include hs

lemma Sound.call_unique (hi : (h.calls i).phase.Holds) (hj : (h.calls j).phase.Holds)
    (hl : (h.calls i).lease = (h.calls j).lease) : i = j := by
  have howner := (hs.mutexes.owner _ i).2 ⟨hl, hi⟩
  rw [(hs.mutexes.owner _ j).2 ⟨rfl, hj⟩] at howner
  exact (Option.some.inj howner).symm

lemma Sound.holding_of_answers (hi : h.Answers i)
    (hlocal : (h.leases (h.calls i).lease).isLocal = true) :
    ∃ m, h.locals (h.calls i).lease = .holding m := by
  have hrunning := hi.running?
  have hheld : h.state (h.calls i).lease = .held := by
    rcases hs.epochs.effective i hrunning with hst | ⟨rest, hcounting⟩
    · exact hst
    · have hdb := (hs.lifecycle.live _ (hs.exclusion.counting _ rest hcounting)).2.1
      simp [hlocal] at hdb
  rcases hs.localExclusion.held _ hlocal hheld with hm | hleft
  · exact hm
  · exact absurd (CallPhase.passed_of_running? hrunning)
      ((hs.retirement.left _ hleft).2 i rfl)

variable (hi : h.Answers i) (hj : h.Answers j)
  (hkey : (h.leases (h.calls i).lease).key = (h.leases (h.calls j).lease).key)

include hi hj hkey

lemma Sound.local_unique (hli : (h.leases (h.calls i).lease).isLocal = true)
    (hlj : (h.leases (h.calls j).lease).isLocal = true) :
    (h.calls i).lease = (h.calls j).lease := by
  obtain ⟨m, hm⟩ := hs.holding_of_answers hi hli
  obtain ⟨n, hn⟩ := hs.holding_of_answers hj hlj
  have hmi := (hs.localExclusion.mutex (h.calls i).lease m (by simp [hm])).1
  have hmj := (hs.localExclusion.mutex (h.calls j).lease n (by simp [hn])).1
  obtain rfl : m = n := by
    rw [hkey, hmj] at hmi
    exact (Option.some.inj hmi).symm
  have hgi := (hs.localExclusion.guard (h.calls i).lease m).2 (by simp [hm])
  rw [(hs.localExclusion.guard (h.calls j).lease m).2 (by simp [hn])] at hgi
  exact (Option.some.inj hgi).symm

lemma Sound.database_unique (hli : (h.leases (h.calls i).lease).isLocal = false)
    (hlj : (h.leases (h.calls j).lease).isLocal = false) :
    (h.calls i).lease = (h.calls j).lease := by
  have hri := hi.running?
  have hrj := hj.running?
  rcases hs.epochs.effective i hri with hst | ⟨rest, hp⟩ <;>
    rcases hs.epochs.effective j hrj with hst' | ⟨rest', hp'⟩
  · exact hs.exclusion.unique _ _ hli hlj hst hst' hkey
  · exact absurd hst ((hs.marking _ rest' hp').2 j rfl hrj _ hli hkey)
  · exact absurd hst' ((hs.marking _ rest hp).2 i rfl hri _ hlj hkey.symm)
  · rw [hp, SessionPhase.counting.injEq] at hp'
    exact hp'.1

lemma Sound.answers_unique
    (hkinds : ∀ l < h.count, ∀ m < h.count, (h.leases l).key = (h.leases m).key →
      (h.leases l).isLocal = (h.leases m).isLocal) : i = j := by
  have hholds {k : ℕ} (hk : h.Answers k) : (h.calls k).phase.Holds :=
    (CallPhase.passed_of_running? hk.running?).holds
  have hlt {k : ℕ} (hk : h.Answers k) : (h.calls k).lease < h.count := by
    refine hs.mutexes.known k fun hended => ?_
    simpa [hended] using hholds hk
  refine hs.call_unique (hholds hi) (hholds hj) ?_
  have hkind := hkinds _ (hlt hi) _ (hlt hj) hkey
  cases hli : (h.leases (h.calls i).lease).isLocal with
  | true => exact hs.local_unique hi hj hkey hli (by rw [← hkind, hli])
  | false => exact hs.database_unique hi hj hkey hli (by rw [← hkind, hli])

end

/-! ## What a step can do to calls -/

def Action.OfCall : Action → Prop
  | .enter _ _ _ _ | .call _ | .drop _ => True
  | _ => False

/-- As a call sees it: a revocation stays, an epoch only grows, and does once the lease is lost. -/
structure Others (h h' : Host) : Prop where
  calls : h'.calls = h.calls
  epoch : ∀ l, h.epoch l ≤ h'.epoch l
  active : ∀ l, h.active l = false → h'.active l = false
  counting : ∀ l rest, h.session.phase = .counting l rest →
    h'.session.phase = .counting l rest ∨ h.epoch l < h'.epoch l

lemma Others.of_eq {h' : Host} (hcalls : h'.calls = h.calls) (hepoch : h'.epoch = h.epoch)
    (hactive : h'.active = h.active)
    (hphase : ∀ l rest, h.session.phase = .counting l rest →
      h'.session.phase = h.session.phase) : Others h h' where
  calls := hcalls
  epoch l := by rw [hepoch]
  active l hl := by rwa [hactive]
  counting l rest hp := .inl (by rw [hphase l rest hp, hp])

lemma Others.refl (h : Host) : Others h h :=
  .of_eq rfl rfl rfl fun _ _ _ => rfl

lemma Others.revoke (connection : String) : Others h (h.revoke connection) := by
  unfold Host.revoke
  split
  case h_1 l hl =>
    split
    · refine ⟨rfl, fun _ => Nat.le_refl _, fun m hm => ?_, fun _ _ => .inl⟩
      grind [update_apply]
    · exact .refl h
  case h_2 => exact .refl h

lemma Others.mark : Others h h.mark := by
  unfold Host.mark
  split
  case h_1 hp => exact .of_eq rfl rfl rfl (by simp [hp])
  case h_2 l rest hp => split <;> exact .of_eq rfl rfl rfl (by simp [hp])
  case h_3 l rest hp =>
    refine ⟨rfl, fun m => ?_, fun _ => id, fun m rest' hm => .inr ?_⟩
    · grind [update_apply]
    · rw [hp, SessionPhase.counting.injEq] at hm
      obtain ⟨rfl, -⟩ := hm
      simp
  case h_4 => exact .refl h

lemma Others.receive : Others h h.receive := by
  unfold Host.receive
  split
  case h_2 => exact .refl h
  case h_1 c h' hc =>
    obtain ⟨channel, deferred, rfl, rfl, -⟩ := Host.nextCommand_cases hc
    split
    case h_1 hp => cases c <;> exact .of_eq rfl rfl rfl (by simp [hp])
    case h_2 hp =>
      split
      · exact .of_eq rfl rfl rfl (by simp [hp])
      · exact .refl h
    case h_3 => exact .refl h

lemma Others.finishRelease (l : ℕ) (order : List ℕ) (hp : h.session.phase.Live) :
    Others h (h.finishRelease l order) := by
  unfold Host.finishRelease
  split
  · exact .of_eq rfl rfl rfl fun m rest hm => absurd hm (hp.not_counting m rest)
  · exact .refl h

lemma Others.handle (order : List ℕ) : Others h (h.handle order) := by
  unfold Host.handle
  split
  case h_1 hp => exact .of_eq rfl rfl rfl (by simp [hp])
  case h_2 l hp =>
    split
    · exact .of_eq rfl rfl rfl (by simp [hp])
    · exact .finishRelease l order (by simp [hp])
  case h_3 hp => exact .of_eq rfl rfl rfl (by simp [hp])
  case h_4 => exact .refl h

lemma Others.unlocked (order : List ℕ) : Others h (h.unlocked order) := by
  unfold Host.unlocked
  split
  case h_1 l hp => exact .finishRelease l order (by simp [hp])
  case h_2 => exact .refl h

lemma Others.step (ha : ¬ a.OfCall) : Others h (step h a) := by
  cases a with
  | enter | call | drop => exact absurd trivial ha
  | revoke connection => exact .revoke connection
  | mark => exact .mark
  | receive => exact .receive
  | handle order => exact .handle order
  | unlocked order => exact .unlocked order
  | shutdown | die => exact .of_eq rfl rfl rfl fun _ _ _ => rfl
  | stop =>
    simp only [ResourceLease.step]
    split <;> exact .of_eq rfl rfl rfl fun _ _ _ => rfl
  | retire l =>
    simp only [ResourceLease.step, Host.retire]
    repeat' split
    all_goals exact .of_eq rfl rfl rfl fun _ _ _ => rfl
  | localStep l =>
    simp only [ResourceLease.step, Host.localStep]
    repeat' split
    all_goals exact .of_eq rfl rfl rfl fun _ _ _ => rfl
  | localAbort l =>
    simp only [ResourceLease.step, Host.localAbort]
    split <;> exact .of_eq rfl rfl rfl fun _ _ _ => rfl
  -- The other steps of the session task are none while it marks leases.
  | connect | pop | acquired | execute | cancel | cancelled | lose =>
    simp only [ResourceLease.step, Host.connect, Host.pop, Host.acquired, Host.execute, Host.cancel,
      Host.cancelled, Host.lose]
    repeat' split
    all_goals exact .of_eq rfl rfl rfl (by simp_all)

structure OnlyCalls (h h' : Host) : Prop where
  active : h'.active = h.active
  state : h'.state = h.state
  epoch : h'.epoch = h.epoch
  session : h'.session = h.session

lemma OnlyCalls.callStep (i : ℕ) : OnlyCalls h (h.callStep i) := by
  unfold Host.callStep
  dsimp only
  repeat' split
  all_goals exact ⟨rfl, rfl, rfl, rfl⟩

lemma OnlyCalls.dropCall (i : ℕ) : OnlyCalls h (h.dropCall i) := by
  unfold Host.dropCall
  split <;> exact ⟨rfl, rfl, rfl, rfl⟩

lemma OnlyCalls.enter (hs : Sound h) (i : ℕ) (connection key : String) (isLocal : Bool) :
    OnlyCalls h (h.enter i connection key isLocal) := by
  obtain ⟨hactive, hstate, hepoch, -⟩ := hs.fresh h.count (Nat.le_refl _)
  unfold Host.enter
  split
  · exact ⟨rfl, rfl, rfl, rfl⟩
  · split
    · exact ⟨rfl, rfl, rfl, rfl⟩
    · constructor <;> simp [Host.newLease, ← hactive, ← hstate, ← hepoch]

lemma OnlyCalls.step (hs : Sound h) (ha : a.OfCall) : OnlyCalls h (step h a) := by
  cases a with
  | enter i connection key isLocal => exact .enter hs i connection key isLocal
  | call i => exact .callStep i
  | drop i => exact .dropCall i
  | _ => cases ha

lemma calls_step_of_ne (hcall : a ≠ .call i) (hdrop : a ≠ .drop i)
    (henter : (h.calls i).phase ≠ .ended ∨ ∀ connection key isLocal,
      a ≠ .enter i connection key isLocal) : (step h a).calls i = h.calls i := by
  by_cases ha : a.OfCall
  case neg => rw [(Others.step ha).calls]
  cases a with
  | enter j connection key isLocal =>
    simp only [step, Host.enter]
    split
    case isTrue => rfl
    case isFalse hgo =>
      have hne : i ≠ j := by
        rintro rfl
        rcases henter with hended | henter
        · exact hgo (.inr hended)
        · exact henter connection key isLocal rfl
      split <;> exact update_of_ne hne _ _
  | call j =>
    have hne : i ≠ j := fun hij => hcall (by rw [hij])
    simp only [step, Host.callStep]
    repeat' split
    all_goals first
      | rfl
      | exact update_of_ne hne _ _
  | drop j =>
    have hne : i ≠ j := fun hij => hdrop (by rw [hij])
    simp only [step, Host.dropCall]
    split
    all_goals first
      | rfl
      | exact update_of_ne hne _ _
  | _ => cases ha

/-! ## A lost session -/

/-- The call has an old epoch, or it will once its lease is marked as lost. -/
def Host.Outdated (h : Host) (i : ℕ) : Prop :=
  ∃ e, (h.calls i).phase.running? = some e ∧ (e < h.epoch (h.calls i).lease ∨
    (h.calls i).phase = .running e ∧ ∃ rest, h.session.phase = .counting (h.calls i).lease rest)

lemma Host.Outdated.not_answers (hs : Sound h) (hi : h.Outdated i) : ¬ h.Answers i := by
  intro hanswers
  obtain ⟨e, he, hold | ⟨hp, rest, hcounting⟩⟩ := hi
  · have := hanswers.running?
    rw [he, Option.some.injEq] at this
    omega
  · have hlost := (hs.marking _ rest hcounting).1
    simp [Host.Answers, hp, hlost] at hanswers

lemma Host.callStep_running {e : ℕ} (he : (h.calls i).phase.running? = some e) :
    ((h.callStep i).calls i).lease = (h.calls i).lease ∧
      ((h.callStep i).calls i).phase.running? = some e ∧
      ((h.calls i).phase = .running e → h.state (h.calls i).lease ≠ .held →
        ((h.callStep i).calls i).phase = .running e) := by
  unfold Host.callStep
  cases hp : (h.calls i).phase <;> simp only [hp, CallPhase.running?] at he <;> cases he
  · dsimp only
    split <;> simp_all [Host.setPhase]
  · simp [Host.setPhase]

lemma Host.Outdated.step (hs : Sound h) (ha : a ≠ .drop i) (hi : h.Outdated i) :
    (step h a).Outdated i := by
  obtain ⟨e, he, hold⟩ := hi
  have hended : (h.calls i).phase ≠ .ended := by
    intro hended
    simp [hended] at he
  by_cases hcall : a = .call i
  · subst hcall
    obtain ⟨hlease, hrun, hstay⟩ := Host.callStep_running he
    have honly := OnlyCalls.callStep (h := h) i
    refine ⟨e, hrun, ?_⟩
    simp only [ResourceLease.step, hlease, honly.epoch, honly.session]
    rcases hold with hold | ⟨hp, rest, hcounting⟩
    · exact .inl hold
    · have hlost := (hs.marking _ rest hcounting).1
      exact .inr ⟨hstay hp (by simp [hlost]), rest, hcounting⟩
  · have hsame := calls_step_of_ne hcall ha (.inl hended)
    refine ⟨e, by rw [hsame, he], ?_⟩
    rw [hsame]
    by_cases hof : a.OfCall
    · rw [(OnlyCalls.step hs hof).epoch, (OnlyCalls.step hs hof).session]
      exact hold
    · have hothers := Others.step (h := h) hof
      rcases hold with hold | ⟨hp, rest, hcounting⟩
      · exact .inl (Nat.lt_of_lt_of_le hold (hothers.epoch _))
      · have hle := hs.epochs.le i e (CallPhase.epoch?_of_running? he)
        rcases hothers.counting _ rest hcounting with hcounting | hlt
        · exact .inr ⟨hp, rest, hcounting⟩
        · exact .inl (Nat.lt_of_le_of_lt hle hlt)

lemma Sound.outdated (hs : Sound h) (hi : h.InProgress i)
    (hdb : (h.leases (h.calls i).lease).isLocal = false)
    (hlost : h.state (h.calls i).lease = .lost ∧ (∃ e, (h.calls i).phase = .running e) ∨
      h.session.phase = .down) : h.Outdated i := by
  obtain ⟨e, he⟩ := hi
  refine ⟨e, he, ?_⟩
  have hle := hs.epochs.le i e (CallPhase.epoch?_of_running? he)
  rcases Nat.lt_or_ge e (h.epoch (h.calls i).lease) with hlt | hge
  · exact .inl hlt
  have heq : e = h.epoch (h.calls i).lease := Nat.le_antisymm hle hge
  have heffective := hs.epochs.effective i (by rw [he, heq])
  rcases hlost with ⟨hlost, e', hp⟩ | hdown
  · obtain rfl : e' = e := by simpa [hp] using he
    rcases heffective with hst | hcounting
    · simp [hlost] at hst
    · exact .inr ⟨hp, hcounting⟩
  · have hheld := heffective.held (by simp [hdown])
    have hmem := hs.exclusion.held _ hdb hheld
    simp [hdown] at hmem

/-! ## A revoked lease -/

/-- The call has the call mutex of a revoked lease, or had it. -/
def Host.Refused (h : Host) (i : ℕ) : Prop :=
  h.active (h.calls i).lease = false ∧
    ((h.calls i).phase = .locked ∨ (∃ e, (h.calls i).phase = .loaded e) ∨
      (h.calls i).phase = .ended)

lemma Host.Refused.not_inProgress (hi : h.Refused i) : ¬ h.InProgress i := by
  rintro ⟨e, he⟩
  rcases hi.2 with hp | ⟨e', hp⟩ | hp <;> simp [hp] at he

lemma Host.Refused.callStep (hi : h.Refused i) : (h.callStep i).Refused i := by
  obtain ⟨hactive, hp | ⟨e, hp⟩ | hp⟩ := hi
  all_goals simp [Host.callStep, hp, hactive, Host.Refused, Host.setPhase, Host.endCall]

lemma Host.Refused.dropCall (hi : h.Refused i) : (h.dropCall i).Refused i := by
  obtain ⟨hactive, hp | ⟨e, hp⟩ | hp⟩ := hi
  all_goals simp [Host.dropCall, hp, hactive, Host.Refused]

lemma Host.Refused.step (hs : Sound h)
    (ha : ∀ connection key isLocal, a ≠ .enter i connection key isLocal) (hi : h.Refused i) :
    (step h a).Refused i := by
  by_cases hcall : a = .call i
  · exact hcall ▸ hi.callStep
  by_cases hdrop : a = .drop i
  · exact hdrop ▸ hi.dropCall
  have hsame := calls_step_of_ne (h := h) hcall hdrop (.inr ha)
  unfold Host.Refused
  rw [hsame]
  refine ⟨?_, hi.2⟩
  by_cases hof : a.OfCall
  · rw [(OnlyCalls.step hs hof).active]
    exact hi.1
  · exact (Others.step hof).active _ hi.1

lemma Host.Refused.ended {e : ℕ} (hi : h.Refused i) (he : (h.calls i).phase = .loaded e) :
    ((ResourceLease.step h (.call i)).calls i).phase = .ended := by
  simp [ResourceLease.step, Host.callStep, he, hi.1, Host.endCall, Host.setPhase]

/-! ## Every run -/

lemma Sound.not_inProgress_of_released (hs : Sound h) {l : ℕ} (hbefore : h.state l ≠ .released)
    (hafter : (ResourceLease.step h a).state l = .released) (hi : (h.calls i).lease = l) :
    ¬ h.InProgress i := by
  rintro ⟨e, he⟩
  by_cases hof : a.OfCall
  · rw [(OnlyCalls.step hs hof).state] at hafter
    exact hbefore hafter
  · have hretired := (hs.step a).retirement.released l hafter
    have hcalls := (Others.step (h := h) hof).calls
    exact hretired.2 i (by rw [hcalls, hi]) (by
      rw [hcalls]
      exact CallPhase.passed_of_running? he)

/-- Exclusive calls exclude each other in every interleaving of the tasks. -/
theorem exclusive_calls (hreach : h.Reachable) :
    -- At most one call of a key answers `held` with true.
    ((∀ l < h.count, ∀ m < h.count, (h.leases l).key = (h.leases m).key →
        (h.leases l).isLocal = (h.leases m).isLocal) →
      ∀ i j, h.Answers i → h.Answers j →
        (h.leases (h.calls i).lease).key = (h.leases (h.calls j).lease).key → i = j) ∧
    -- A lease is released only while no call of it is in progress.
    (∀ a l, h.state l ≠ .released → (step h a).state l = .released →
      ∀ i, (h.calls i).lease = l → ¬ h.InProgress i) ∧
    -- A call in progress whose session was lost does not answer again.
    (∀ i, h.InProgress i → (h.leases (h.calls i).lease).isLocal = false →
      h.state (h.calls i).lease = .lost ∧ (∃ e, (h.calls i).phase = .running e) ∨
        h.session.phase = .down →
      ∀ later : List Action, .drop i ∉ later → ¬ (h.run later).Answers i) ∧
    -- A call that takes the call mutex of a revoked lease is refused.
    (∀ i, (h.calls i).phase = .locking → h.owner (h.calls i).lease = none →
      h.active (h.calls i).lease = false →
      ∀ later : List Action, (∀ connection key isLocal, .enter i connection key isLocal ∉ later) →
        ¬ ((step h (.call i)).run later).InProgress i ∧
        ∀ e, (((step h (.call i)).run later).calls i).phase = .loaded e →
          ((step ((step h (.call i)).run later) (.call i)).calls i).phase = .ended) := by
  have hs : Sound h := hreach.sound
  refine ⟨fun hkinds i j hi hj hkey => hs.answers_unique hi hj hkey hkinds,
    fun a l hbefore hafter i hi => hs.not_inProgress_of_released hbefore hafter hi,
    fun i hi hdb hlost later hdrop => ?_, fun i hp hfree hactive later henter => ?_⟩
  · have hrun : Steps step (fun _ a => a ≠ .drop i) h (h.run later) :=
      Steps.foldl h later fun _ a ha hdrop' => hdrop (hdrop' ▸ ha)
    have hend : Sound (h.run later) ∧ (h.run later).Outdated i :=
      hrun.invariant (I := fun h => Sound h ∧ h.Outdated i)
        (fun _ a hI ha => ⟨hI.1.step a, hI.2.step hI.1 ha⟩) ⟨hs, hs.outdated hi hdb hlost⟩
    exact hend.2.not_answers hend.1
  · have hrefused : (step h (.call i)).Refused i := by
      simp [step, Host.callStep, hp, hfree, Host.Refused, Host.setPhase, hactive]
    have hrun : Steps step (fun _ a => ∀ connection key isLocal,
        a ≠ .enter i connection key isLocal) (step h (.call i)) ((step h (.call i)).run later) :=
      Steps.foldl _ later fun _ a ha connection key isLocal henter' =>
        henter connection key isLocal (henter' ▸ ha)
    have hend : Sound ((step h (.call i)).run later) ∧ ((step h (.call i)).run later).Refused i :=
      hrun.invariant (I := fun h => Sound h ∧ h.Refused i)
        (fun _ a hI ha => ⟨hI.1.step a, hI.2.step hI.1 ha⟩) ⟨hs.step _, hrefused⟩
    exact ⟨hend.2.not_inProgress, fun e he => hend.2.ended he⟩

namespace Sample

/-- A call of a database lease gets as far as its `Call`. -/
def called : List Action :=
  [.enter 0 "c" "resource" false, .receive, .connect [0], .pop, .execute, .acquired, .call 0,
    .call 0, .call 0, .call 0, .call 0]

/-- The lease is marked as lost, and the next session holds it anew. -/
def heldAnew : List Action :=
  [.mark, .mark, .connect [0], .pop, .execute, .acquired]

/-- The lease is revoked while a call waits for the call mutex. -/
def revokedMeanwhile : List Action :=
  [.enter 0 "c" "resource" false, .receive, .connect [0], .pop, .execute, .acquired, .call 0,
    .revoke "c"]

/-- The host with the call in progress whose lease is marked as lost. -/
def lost : Host :=
  Host.start.run (called ++ [.lose [0], .mark])

/-- The host with the call that waits for the call mutex of a revoked lease. -/
def revoked : Host :=
  Host.start.run revokedMeanwhile

/-- A call does not answer after its lease is held anew, or was revoked while it waited. -/
theorem old_call_does_not_answer :
    ((Host.start.run called).Answers 0 ∧ (lost.run heldAnew).state 0 = .held ∧
      ¬ (lost.run heldAnew).Answers 0) ∧
    ¬ ((step revoked (.call 0)).run [.call 0, .call 0]).InProgress 0 := by
  have hrunning : (lost.calls 0).phase = .running 0 := by decide +kernel
  have hlost : lost.state (lost.calls 0).lease = .lost := by decide +kernel
  have hdb : (lost.leases (lost.calls 0).lease).isLocal = false := by decide +kernel
  have hwaits : (revoked.calls 0).phase = .locking ∧
      revoked.owner (revoked.calls 0).lease = none ∧
      revoked.active (revoked.calls 0).lease = false := by decide +kernel
  have hlater := (exclusive_calls (h := lost) ⟨_, rfl⟩).2.2.1 0
    ⟨0, congrArg CallPhase.running? hrunning⟩ hdb (.inl ⟨hlost, 0, hrunning⟩) heldAnew
    (by decide +kernel)
  have hrefused := (exclusive_calls (h := revoked) ⟨_, rfl⟩).2.2.2 0 hwaits.1 hwaits.2.1 hwaits.2.2
    [.call 0, .call 0] (by simp)
  exact ⟨⟨by decide +kernel, by decide +kernel, hlater⟩, hrefused.1⟩

end Sample

end Wamn.ResourceLease
