import Mathlib.Data.List.Nodup
import Wamn.ResourceLease.SessionSteps

/-!
# The advisory locks of a session are accounted

A session should hold the advisory lock of a key once for the held lease of the key. But when a
lease is released that was not held, every other active lease of its key is to be acquired, also a
held one: that is acquired again, and its release leaves the lock with the session.
-/

namespace Wamn.ResourceLease

open List Lib Function

variable {h : Host}

def Host.Held (h : Host) (key : String) : Prop :=
  ∃ l < h.count, (h.leases l).isLocal = false ∧ (h.leases l).key = key ∧ h.state l = .held

instance (h : Host) (key : String) : Decidable (h.Held key) :=
  inferInstanceAs (Decidable (∃ l < h.count, _))

/-- How often the lock was granted to a statement whose result is not seen. -/
def Host.granted (h : Host) (key : String) : ℕ :=
  match h.session.phase with
  | .acquiring l true | .cancelling l true _ => if (h.leases l).key = key then 1 else 0
  | _ => 0

/-- How often the lock was released by a statement whose result is not seen. -/
def Host.given (h : Host) (key : String) : ℕ :=
  match h.session.phase with
  | .unlocking l true => if (h.leases l).key = key then 1 else 0
  | _ => 0

/-- A lease whose release is handled is held, or no other one of its key that is then to be acquired
is. -/
def Settled (h : Host) : Action → Prop
  | .handle _ =>
    match h.session.phase with
    | .received (.release l) => h.state l = .held ∨ ∀ m ∈ h.removeNeeded l,
        (h.leases m).key = (h.leases l).key → h.active m = true → m ∉ h.session.pending →
          h.state m ≠ .held
    | _ => True
  | _ => True

instance (h : Host) (a : Action) : Decidable (Settled h a) := by
  unfold Settled
  split
  · split <;> infer_instance
  · infer_instance

/-- What is held and what is to be acquired in a session. -/
structure Accounts (h : Host) : Prop where
  waits : ∀ l ∈ h.session.pending, h.active l = true → h.state l ≠ .held
  once : ∀ l, h.active l = true → h.session.pending.count l ≤ 1
  acquires : ∀ l, h.session.phase.acquires = some l →
    h.state l ≠ .held ∧ (h.active l = true → l ∉ h.session.pending)
  unlocking : ∀ l unlocked, h.session.phase = .unlocking l unlocked → h.state l = .held
  locks : h.session.dead = false → ∀ key,
    h.session.locks key + h.given key = (if h.Held key then 1 else 0) + h.granted key

def Accounted (h : Host) : Prop :=
  h.session.phase.Live → Accounts h

/-! ## The other tasks -/

/-- What the other tasks leave alone: the session, and database leases but for revocations. -/
structure Apart (h h' : Host) : Prop where
  count : h.count ≤ h'.count
  leases : ∀ l < h.count, h'.leases l = h.leases l
  state : ∀ l, (h'.leases l).isLocal = false → h'.state l = h.state l
  active : ∀ l, h'.active l = true → h.active l = true
  session : h'.session = h.session

variable {h' : Host} {l : ℕ} {channel : List Command} {s : Session}

lemma Apart.of_eq (hcount : h'.count = h.count) (hleases : h'.leases = h.leases)
    (hstate : h'.state = h.state) (hactive : h'.active = h.active)
    (hsession : h'.session = h.session) : Apart h h' where
  count := by rw [hcount]
  leases l _ := by rw [hleases]
  state l _ := by rw [hstate]
  active l hl := by rwa [← hactive]
  session := hsession

lemma Apart.revoke (connection : String) : Apart h (h.revoke connection) := by
  unfold Host.revoke
  repeat' split
  case h_1.isTrue =>
    refine ⟨Nat.le_refl _, fun _ _ => rfl, fun _ _ => rfl, fun m hm => ?_, rfl⟩
    grind [update_apply]
  all_goals exact .of_eq rfl rfl rfl rfl rfl

lemma Apart.setLocal {st : LeaseState} (hlocal : (h.leases l).isLocal = true)
    (hcount : h'.count = h.count) (hleases : h'.leases = h.leases)
    (hstate : h'.state = update h.state l st) (hactive : h'.active = h.active)
    (hsession : h'.session = h.session) : Apart h h' where
  count := by rw [hcount]
  leases m _ := by rw [hleases]
  state m hm := by
    have hne : m ≠ l := by
      rintro rfl
      simp [hleases, hlocal] at hm
    rw [hstate, update_of_ne hne]
  active m hm := by rwa [← hactive]
  session := hsession

section

variable (hs : Sound h)

include hs

lemma Apart.held_iff (ha : Apart h h') (key : String) : h'.Held key ↔ h.Held key := by
  constructor
  · rintro ⟨l, -, hdb, hkey, hst⟩
    rw [ha.state l hdb] at hst
    have hlt : l < h.count := by
      by_contra hge
      simp [(hs.fresh l (Nat.le_of_not_lt hge)).2.1] at hst
    rw [ha.leases l hlt] at hdb hkey
    exact ⟨l, hlt, hdb, hkey, hst⟩
  · rintro ⟨l, hlt, hdb, hkey, hst⟩
    have hlease := ha.leases l hlt
    refine ⟨l, Nat.lt_of_lt_of_le hlt ha.count, by rw [hlease, hdb], by rw [hlease, hkey], ?_⟩
    rw [ha.state l (by rw [hlease, hdb]), hst]

lemma Sound.statement_lt
    (hl : h.session.phase.acquires = some l ∨ .release l ∈ h.session.phase.command) :
    l < h.count ∧ (h.leases l).isLocal = false ∧ h.state l ≠ .released := by
  rcases hl with hl | hl
  · exact hs.lifecycle.live l (hs.exclusion.statement l hl).1
  · obtain ⟨hlt, hdb, hst, -⟩ := hs.lifecycle.release l (mem_append_left _ hl)
    exact ⟨hlt, hdb, hst⟩

lemma Apart.enter (i : ℕ) (connection key : String) (isLocal : Bool) :
    Apart h (h.enter i connection key isLocal) := by
  obtain ⟨hactive, hstate, -, -⟩ := hs.fresh h.count (Nat.le_refl _)
  unfold Host.enter
  split
  · exact .of_eq rfl rfl rfl rfl rfl
  · split
    · exact .of_eq rfl rfl rfl rfl rfl
    · refine ⟨Nat.le_succ _, fun l hl => ?_, fun l _ => ?_, fun l hl => ?_, rfl⟩
      · exact update_of_ne (Nat.ne_of_lt hl) _ _
      · simp [Host.newLease, ← hstate]
      · simpa [Host.newLease, ← hactive] using hl

lemma Apart.retire (l : ℕ) : Apart h (h.retire l) := by
  unfold Host.retire
  split
  case isFalse => exact .of_eq rfl rfl rfl rfl rfl
  case isTrue hgo =>
    split
    case isTrue => exact .of_eq rfl rfl rfl rfl rfl
    case isFalse hdb => exact .setLocal (hs.isLocal_of_revoker hgo.1 hdb) rfl rfl rfl rfl rfl

lemma Apart.localStep (l : ℕ) : Apart h (h.localStep l) := by
  have hlocal (habsent : h.locals l ≠ .absent) := (hs.localExclusion.known l habsent).2
  unfold Host.localStep
  split
  case h_4 m hl => exact .setLocal (hlocal (by simp [hl])) rfl rfl rfl rfl rfl
  case h_7 hl => exact .setLocal (hlocal (by simp [hl])) rfl rfl rfl rfl rfl
  all_goals
    repeat' split
    all_goals exact .of_eq rfl rfl rfl rfl rfl

lemma Accounted.apart (hacc : Accounted h) (ha : Apart h h') : Accounted h' := by
  intro hlive
  rw [ha.session] at hlive
  obtain ⟨hwaits, honce, hacquires, hunlocking, hlocks⟩ := hacc hlive
  have hstate {l : ℕ} (hl : l < h.count) (hdb : (h.leases l).isLocal = false) :
      h'.state l = h.state l := ha.state l (by rw [ha.leases l hl, hdb])
  refine ⟨fun l hl hactive => ?_, fun l hactive => ?_, fun l hl => ?_, fun l u hl => ?_,
    fun hdead key => ?_⟩
  · rw [ha.session] at hl
    have hactive := ha.active l hactive
    obtain ⟨hlt, hdb, -⟩ := hs.lifecycle.live l (hs.exclusion.waiting l hl hactive)
    rw [hstate hlt hdb]
    exact hwaits l hl hactive
  · rw [ha.session]
    exact honce l (ha.active l hactive)
  · rw [ha.session] at hl ⊢
    obtain ⟨hlt, hdb, -⟩ := hs.statement_lt (.inl hl)
    rw [hstate hlt hdb]
    exact ⟨(hacquires l hl).1, fun hactive => (hacquires l hl).2 (ha.active l hactive)⟩
  · rw [ha.session] at hl
    obtain ⟨hlt, hdb, -⟩ := hs.statement_lt (l := l) (.inr (by simp [hl]))
    rw [hstate hlt hdb]
    exact hunlocking l u hl
  · rw [ha.session] at hdead
    have hgiven : h'.given key = h.given key := by
      unfold Host.given
      rw [ha.session]
      split
      case h_1 l hp =>
        have hlt := (hs.statement_lt (l := l) (.inr (by simp [hp]))).1
        rw [ha.leases l hlt]
      case h_2 => rfl
    have hgranted : h'.granted key = h.granted key := by
      unfold Host.granted
      rw [ha.session]
      split
      case h_1 l hp | h_2 l c hp =>
        have hlt := (hs.statement_lt (l := l) (.inl (by simp [hp]))).1
        rw [ha.leases l hlt]
      case h_3 => rfl
    rw [hgiven, hgranted, ha.session]
    simpa only [ha.held_iff hs key] using hlocks hdead key

end

/-! ## The session task -/

lemma Accounted.of_not_live (hp : ¬ h.session.phase.Live) : Accounted h :=
  fun hlive => absurd hlive hp

lemma Accounts.move (hacc : Accounts h) (hlocks : s.locks = h.session.locks)
    (hdead : s.dead = h.session.dead)
    (hgiven : ∀ key, Host.given { h with channel, session := s } key = h.given key)
    (hgranted : ∀ key, Host.granted { h with channel, session := s } key = h.granted key)
    (hpending : ∀ l ∈ s.pending, h.active l = true → l ∈ h.session.pending ∨ h.state l ≠ .held)
    (honce : ∀ l, h.active l = true → s.pending.count l ≤ 1)
    (hacquires : ∀ l, s.phase.acquires = some l →
      h.state l ≠ .held ∧ (h.active l = true → l ∉ s.pending))
    (hunlocking : ∀ l u, s.phase = .unlocking l u → h.state l = .held) :
    Accounts { h with channel, session := s } where
  waits l hl hactive := by
    rcases hpending l hl hactive with hl | hst
    · exact hacc.waits l hl hactive
    · exact hst
  once := honce
  acquires := hacquires
  unlocking := hunlocking
  locks hdead' key := by
    rw [hgiven, hgranted]
    show s.locks key + _ = _
    rw [hlocks]
    exact hacc.locks (hdead ▸ hdead') key

/-- The phases in which no statement of the task has been executed unseen. -/
@[simp]
def SessionPhase.Seen : SessionPhase → Prop
  | .acquiring _ true | .cancelling _ true _ | .unlocking _ true => False
  | _ => True

lemma Host.given_of_seen (hp : h.session.phase.Seen) (key : String) : h.given key = 0 := by
  unfold Host.given
  split
  case h_1 l hp' => simp [hp'] at hp
  case h_2 => rfl

lemma Host.granted_of_seen (hp : h.session.phase.Seen) (key : String) : h.granted key = 0 := by
  unfold Host.granted
  split
  case h_1 l hp' => simp [hp'] at hp
  case h_2 l c hp' => simp [hp'] at hp
  case h_3 => rfl

/-- The task moves between phases in which nothing was executed unseen. -/
theorem Accounts.moveSeen (hacc : Accounts h) (hp : h.session.phase.Seen) (hp' : s.phase.Seen)
    (hlocks : s.locks = h.session.locks) (hdead : s.dead = h.session.dead)
    (hpending : ∀ l ∈ s.pending, h.active l = true → l ∈ h.session.pending ∨ h.state l ≠ .held)
    (honce : ∀ l, h.active l = true → s.pending.count l ≤ 1)
    (hacquires : ∀ l, s.phase.acquires = some l →
      h.state l ≠ .held ∧ (h.active l = true → l ∉ s.pending))
    (hunlocking : ∀ l u, s.phase = .unlocking l u → h.state l = .held) :
    Accounts { h with channel, session := s } := by
  refine hacc.move hlocks hdead (fun key => ?_) (fun key => ?_) hpending honce hacquires hunlocking
  · rw [Host.given_of_seen hp, Host.given_of_seen (by exact hp')]
  · rw [Host.granted_of_seen hp, Host.granted_of_seen (by exact hp')]

lemma Host.held_set_held (hlt : l < h.count) (hdb : (h.leases l).isLocal = false) (key : String) :
    Host.Held { h.set l .held with channel, session := s } key ↔
      key = (h.leases l).key ∨ h.Held key := by
  constructor
  · rintro ⟨m, hm, hmdb, hmkey, hst⟩
    by_cases hne : m = l
    · exact .inl (hne ▸ hmkey.symm)
    · exact .inr ⟨m, hm, hmdb, hmkey, by simpa [Host.set, hne] using hst⟩
  · rintro (rfl | ⟨m, hm, hmdb, hmkey, hst⟩)
    · exact ⟨l, hlt, hdb, rfl, by simp [Host.set]⟩
    · refine ⟨m, hm, hmdb, hmkey, ?_⟩
      simp only [Host.set]
      grind [update_apply]

lemma seen_afterCancel (command : Option Command) : (Host.afterCancel command).Seen := by
  cases command <;> trivial

lemma afterCancel_ne_unlocking (command : Option Command) (l : ℕ) (u : Bool) :
    Host.afterCancel command ≠ .unlocking l u := by
  cases command <;> simp [Host.afterCancel]

section

variable (hacc : Accounted h)

include hacc

lemma Accounted.receive : Accounted h.receive := by
  unfold Host.receive
  split
  case h_2 => exact hacc
  case h_1 c h' hc =>
    obtain ⟨channel, deferred, rfl, rfl, -⟩ := Host.nextCommand_cases hc
    split
    case h_1 hp =>
      refine .of_not_live ?_
      cases c <;> simp [Host.handleDown, hp]
    case h_2 hp =>
      split
      · have hacc := hacc (by simp [hp])
        exact fun _ => hacc.moveSeen (by simp [hp]) trivial rfl rfl
          (fun l hl _ => .inl hl) hacc.once (by simp) (by simp)
      · exact hacc
    case h_3 => exact hacc

lemma Accounted.pop : Accounted h.pop := by
  unfold Host.pop
  split
  case h_2 => exact hacc
  case h_1 l pending hidle hdeferred hpending =>
    have hacc := hacc (by simp [hidle])
    have hseen : h.session.phase.Seen := by simp [hidle]
    have hrest (m : ℕ) (hm : m ∈ pending) : m ∈ h.session.pending := by simp [hpending, hm]
    have honce (m : ℕ) (hm : h.active m = true) : pending.count m ≤ 1 := by
      have := hacc.once m hm
      rw [hpending] at this
      exact Nat.le_trans count_le_count_cons this
    split
    · exact fun _ => hacc.moveSeen hseen hseen rfl rfl (fun m hm _ => .inl (hrest m hm)) honce
        (by simp [hidle]) hacc.unlocking
    case isFalse hgo =>
      obtain ⟨hactive, -⟩ := not_or.1 hgo
      have hactive : h.active l = true := by simpa using hactive
      refine fun _ => hacc.moveSeen hseen trivial rfl rfl (fun m hm _ => .inl (hrest m hm)) honce
        (fun m hm => ?_) (by simp)
      obtain rfl : l = m := by simpa using hm
      refine ⟨hacc.waits l (by simp [hpending]) hactive, fun _ hmem => ?_⟩
      have := hacc.once l hactive
      rw [hpending, count_cons_self] at this
      have : 0 < pending.count l := count_pos_iff.2 hmem
      omega

lemma Accounted.cancel (forCommand : Bool) : Accounted (h.cancel forCommand) := by
  have hcancelling {l : ℕ} {granted : Bool} (hp : h.session.phase = .acquiring l granted)
      (channel : List Command) (c : Option Command) : Accounts { h with
        channel, session := { h.session with phase := .cancelling l granted c } } := by
    have hacc := hacc (by simp [hp])
    have hl := hacc.acquires l (by simp [hp])
    refine hacc.move rfl rfl (fun key => ?_) (fun key => ?_) (fun m hm _ => .inl hm) hacc.once
      (by simpa using hl) (by simp)
    · simp [Host.given, hp]
    · cases granted <;> simp [Host.granted, hp]
  unfold Host.cancel
  split
  case h_1 hp _ => exact fun _ => hcancelling hp _ _
  case h_2 hp =>
    split
    · exact fun _ => hcancelling hp _ _
    · exact hacc
  case h_3 => exact hacc

lemma Accounted.lose (order : List ℕ) : Accounted (h.lose order) := by
  unfold Host.lose
  split
  · split
    case h_5 => exact hacc
    all_goals exact .of_not_live id
  · exact hacc

lemma Accounted.mark : Accounted h.mark := by
  unfold Host.mark
  split
  case h_1 => exact .of_not_live id
  case h_2 => split <;> exact .of_not_live id
  case h_3 => exact .of_not_live id
  case h_4 => exact hacc

lemma Accounted.die : Accounted h.die := by
  intro hlive
  obtain ⟨hwaits, honce, hacquires, hunlocking, -⟩ := hacc hlive
  exact ⟨hwaits, honce, hacquires, hunlocking, fun hdead => by cases hdead⟩

end

section

variable (hs : Sound h)

include hs

/-- The lock that was granted is the one of the lease that is held now. -/
theorem Accounts.setHeld (hacc : Accounts h) (hl : h.session.phase.acquires = some l)
    (hgiven : ∀ key, h.given key = 0)
    (hgranted : ∀ key, h.granted key = if (h.leases l).key = key then 1 else 0)
    (hseen : s.phase.Seen) (hnone : s.phase.acquires = none)
    (hunlocking : ∀ m u, s.phase ≠ .unlocking m u) (hlocks : s.locks = h.session.locks)
    (hdead : s.dead = h.session.dead) (hpending : s.pending = h.session.pending) :
    Accounts { h.set l .held with session := s } := by
  obtain ⟨hst, hnot⟩ := hacc.acquires l hl
  obtain ⟨hmem, hother⟩ := hs.exclusion.statement l hl
  obtain ⟨hlt, hdb, -⟩ := hs.lifecycle.live l hmem
  refine ⟨fun m hm hactive => ?_, fun m hactive => ?_, fun m hm => ?_,
    fun m u hm => absurd hm (hunlocking m u), fun hdead' key => ?_⟩
  · have hwaits : m ∈ h.session.pending := hpending ▸ hm
    have hne : m ≠ l := by
      rintro rfl
      exact hnot hactive hwaits
    simpa [Host.set, hne] using hacc.waits m hwaits hactive
  · rw [hpending]
    exact hacc.once m hactive
  · rw [hnone] at hm
    cases hm
  · have hbefore := hacc.locks (hdead ▸ hdead') key
    rw [hgiven, hgranted] at hbefore
    rw [Host.given_of_seen (by exact hseen), Host.granted_of_seen (by exact hseen)]
    simp only [Host.held_set_held hlt hdb, hlocks]
    by_cases hkey : key = (h.leases l).key
    · subst hkey
      -- No lease of the key was held.
      have hheld : ¬ h.Held (h.leases l).key := by
        rintro ⟨m, -, hmdb, hmkey, hmst⟩
        exact hst (hother m hmdb hmst hmkey ▸ hmst)
      simp only [hheld, if_true, true_or, if_false] at hbefore ⊢
      omega
    · simp only [hkey, Ne.symm hkey, false_or, if_false] at hbefore ⊢
      exact hbefore

lemma Sound.held_set_released (hdb : (h.leases l).isLocal = false) (key : String) :
    Host.Held { h.set l .released with session := s } key ↔
      h.Held key ∧ ¬ (key = (h.leases l).key ∧ h.state l = .held) := by
  have hstate {m : ℕ} : update h.state l .released m = .held ↔
      m ≠ l ∧ h.state m = .held := by
    grind [update_apply]
  constructor
  · rintro ⟨m, hm, hmdb, hmkey, hst⟩
    obtain ⟨hne, hst⟩ := hstate.1 hst
    refine ⟨⟨m, hm, hmdb, hmkey, hst⟩, fun hl => hne ?_⟩
    exact hs.exclusion.unique m l hmdb hdb hst hl.2 (hmkey.trans hl.1)
  · rintro ⟨⟨m, hm, hmdb, hmkey, hst⟩, hnot⟩
    refine ⟨m, hm, hmdb, hmkey, hstate.2 ⟨?_, hst⟩⟩
    rintro rfl
    exact hnot ⟨hmkey.symm, hst⟩

/-- A lease is released after its unlock, or without one if it was not held. -/
theorem Accounted.finishRelease (hacc : Accounts h) (order : List ℕ) (hl : .release l ∈ h.queue)
    (hothers : ∀ m ∈ h.removeNeeded l, (h.leases m).key = (h.leases l).key →
      h.active m = true → m ∉ h.session.pending → h.state m ≠ .held)
    (hgranted : ∀ key, h.granted key = 0)
    (hgiven : ∀ key, h.given key = if key = (h.leases l).key ∧ h.state l = .held then 1 else 0) :
    Accounted (h.finishRelease l order) := by
  have hdb := (hs.lifecycle.release l hl).2.1
  unfold Host.finishRelease
  split
  case isFalse => exact fun _ => hacc
  case isTrue hperm =>
    have hperm : order.Perm (h.removeNeeded l) := isPerm_iff.1 hperm
    have hmem {m : ℕ} (hm : m ∈ h.waitingFor l order) : m ∈ h.removeNeeded l ∧
        (h.leases m).key = (h.leases l).key ∧ h.active m = true ∧ m ∉ h.session.pending := by
      obtain ⟨hm, hcond⟩ := mem_filter.1 hm
      exact ⟨hperm.mem_iff.1 hm, of_decide_eq_true hcond⟩
    refine fun _ => ⟨fun m hm hactive => ?_, fun m hactive => ?_, (fun m hm => by cases hm),
      (fun m u hm => by cases hm), fun hdead key => ?_⟩
    · have hst : h.state m ≠ .held := by
        rcases mem_append.1 hm with hm | hm
        · exact hacc.waits m hm hactive
        · obtain ⟨hm, hkey, hactive, hnot⟩ := hmem hm
          exact hothers m hm hkey hactive hnot
      simp only [Host.set]
      grind [update_apply]
    · have honce := hacc.once m hactive
      have hnodup : (h.waitingFor l order).Nodup :=
        (hperm.nodup_iff.2 (hs.lifecycle.neededNodup.filter _)).filter _
      have hcount := nodup_iff_count_le_one.1 hnodup m
      dsimp only
      rw [count_append]
      by_cases hm : m ∈ h.waitingFor l order
      · have := count_eq_zero_of_not_mem (hmem hm).2.2.2
        omega
      · have := count_eq_zero_of_not_mem hm
        omega
    · have hbefore := hacc.locks hdead key
      rw [hgranted, hgiven] at hbefore
      rw [Host.given_of_seen (by exact trivial), Host.granted_of_seen (by exact trivial)]
      simp only [hs.held_set_released hdb]
      change h.session.locks key + 0 = _
      by_cases hkey : key = (h.leases l).key ∧ h.state l = .held
      · have hheld : h.Held key := ⟨l, (hs.lifecycle.release l hl).1, hdb, hkey.1.symm, hkey.2⟩
        rw [if_pos hkey, if_pos hheld] at hbefore
        rw [if_neg fun hand => hand.2 hkey]
        omega
      · rw [if_neg hkey] at hbefore
        simpa only [hkey, not_false_eq_true, and_true] using hbefore

section

variable (hacc : Accounted h)

include hacc

lemma Accounted.connect (order : List ℕ) : Accounted (h.connect order) := by
  unfold Host.connect
  split
  case isFalse => exact hacc
  case isTrue hgo =>
    obtain ⟨hdown, -, -, hperm⟩ := hgo
    have hperm : order.Perm h.session.needed := isPerm_iff.1 hperm
    have hheld (l : ℕ) (hdb : (h.leases l).isLocal = false) : h.state l ≠ .held := by
      intro hst
      have hmem := hs.exclusion.held l hdb hst
      simp [hdown] at hmem
    refine fun _ => ⟨fun l hl _ => ?_, fun l _ => ?_, (fun l hl => by cases hl),
      (fun l u hl => by cases hl), fun _ key => ?_⟩
    · exact hheld l (hs.lifecycle.live l (hperm.mem_iff.1 (mem_filter.1 hl).1)).2.1
    · refine nodup_iff_count_le_one.1 ?_ l
      exact (hperm.nodup_iff.2 hs.lifecycle.neededNodup).filter _
    · have hnot : ¬ Host.Held { h with session := { h.session with
          phase := .idle, pending := order.filter fun l => h.active l
          locks := fun _ => 0, dead := false } } key := by
        rintro ⟨l, -, hdb, -, hst⟩
        exact hheld l hdb hst
      rw [if_neg hnot]
      rfl

lemma Accounted.execute : Accounted h.execute := by
  unfold Host.execute
  split
  case isTrue => exact hacc
  case isFalse hdead =>
    have hdead : h.session.dead = false := by simpa using hdead
    split
    case h_1 l hp | h_2 l c hp =>
      have hacc := hacc (by simp [hp])
      have hl := hacc.acquires l (by simp [hp])
      refine fun _ => ⟨hacc.waits, hacc.once, by simpa using hl, by simp,
        fun _ key => ?_⟩
      have hlocks := hacc.locks hdead key
      simp only [Host.given, Host.granted, hp] at hlocks
      simp only [Host.given, Host.granted, Host.grantedLocks, update_apply]
      change _ = (if h.Held key then 1 else 0) + _
      by_cases hkey : key = (h.leases l).key
      · subst hkey
        simp only [if_true]
        omega
      · rw [if_neg hkey, if_neg (Ne.symm hkey)]
        omega
    case h_3 l hp =>
      have hacc := hacc (by simp [hp])
      have hst := hacc.unlocking l false hp
      obtain ⟨hlt, hdb, -⟩ := hs.statement_lt (l := l) (.inr (by simp [hp]))
      refine fun _ => ⟨hacc.waits, hacc.once, by simp, by simpa using hst,
        fun _ key => ?_⟩
      have hlocks := hacc.locks hdead key
      simp only [Host.given, Host.granted, hp] at hlocks
      simp only [Host.given, Host.granted, Host.unlockedLocks, update_apply]
      change _ = (if h.Held key then 1 else 0) + _
      by_cases hkey : key = (h.leases l).key
      · subst hkey
        have hheld : h.Held (h.leases l).key := ⟨l, hlt, hdb, rfl, hst⟩
        simp only [if_pos hheld, if_true] at hlocks ⊢
        omega
      · rw [if_neg hkey, if_neg (Ne.symm hkey)]
        omega
    case h_4 => exact hacc

lemma Accounted.acquired : Accounted h.acquired := by
  unfold Host.acquired
  split
  case h_1 l hp =>
    exact fun _ => (hacc (by simp [hp])).setHeld hs (by simp [hp]) (by simp [Host.given, hp])
      (by simp [Host.granted, hp]) trivial rfl (by simp) rfl rfl rfl
  case h_2 => exact hacc

lemma Accounted.cancelled (acquired : Bool) : Accounted (h.cancelled acquired) := by
  unfold Host.cancelled
  split
  case h_1 l command hp =>
    have hacc := hacc (by simp [hp])
    exact fun _ => hacc.setHeld hs (by simp [hp]) (by simp [Host.given, hp])
      (by simp [Host.granted, hp]) (seen_afterCancel command) (acquires_afterCancel command)
      (afterCancel_ne_unlocking command) rfl rfl rfl
  case h_2 l granted command hp =>
    split
    case isFalse => exact hacc
    case isTrue hfailed =>
      have hacc := hacc (by simp [hp])
      obtain ⟨hst, hnot⟩ := hacc.acquires l (by simp [hp])
      have hpending (m : ℕ)
          (hm : m ∈ if h.active l then h.session.pending ++ [l] else h.session.pending) :
          m ∈ h.session.pending ∨ m = l := by
        split at hm <;> simp_all
      refine fun _ => ⟨fun m hm hactive => ?_, fun m hactive => ?_, fun m hm => ?_,
        fun m u hm => absurd hm (afterCancel_ne_unlocking command m u), fun hdead key => ?_⟩
      · rcases hpending m hm with hm | rfl
        · exact hacc.waits m hm hactive
        · exact hst
      · have honce := hacc.once m hactive
        dsimp only at hactive ⊢
        split
        case isTrue hl =>
          have hzero := count_eq_zero_of_not_mem (hnot hl)
          by_cases hne : m = l
          · simp [hne, hzero]
          · simpa [count_singleton, Ne.symm hne] using honce
        case isFalse => exact honce
      · rw [acquires_afterCancel] at hm
        cases hm
      · have hseen : h.session.phase.Seen := by
          rw [hfailed.resolve_right (by simpa using hdead)] at hp
          simp [hp]
        have hbefore := hacc.locks hdead key
        rw [Host.given_of_seen hseen, Host.granted_of_seen hseen] at hbefore
        rw [Host.given_of_seen (seen_afterCancel command),
          Host.granted_of_seen (seen_afterCancel command)]
        exact hbefore
  case h_3 => exact hacc

lemma Accounted.handle (order : List ℕ) (hsettled : Settled h (.handle order)) :
    Accounted (h.handle order) := by
  unfold Host.handle
  split
  case h_1 l hp =>
    have hacc := hacc (by simp [hp])
    obtain ⟨-, -, hneeded, hst⟩ := hs.lifecycle.acquire l
      (by simp [Host.queue, hp])
    refine fun _ => hacc.moveSeen (by simp [hp]) trivial rfl rfl
      (fun m hm _ => ?_) (fun m hactive => ?_) (fun m hm => by cases hm) (fun m u hm => by cases hm)
    · rcases mem_append.1 hm with hm | hm
      · exact .inl hm
      · exact .inr (by simp [mem_singleton.1 hm, hst])
    · -- A lease that waits already would be needed.
      have honce := hacc.once m hactive
      dsimp only
      rw [count_append]
      by_cases hne : m = l
      · subst hne
        have hnot : m ∉ h.session.pending := fun hm => hneeded (hs.exclusion.waiting m hm hactive)
        simp [count_eq_zero_of_not_mem hnot]
      · simpa [count_singleton, Ne.symm hne] using honce
  case h_2 l hp =>
    have hacc := hacc (by simp [hp])
    have hseen : h.session.phase.Seen := by simp [hp]
    split
    case isTrue hst =>
      refine fun _ => hacc.moveSeen hseen trivial rfl rfl (fun m hm _ => .inl hm) hacc.once
        (fun m hm => by cases hm) ?_
      simpa using hst
    case isFalse hst =>
      simp only [Settled, hp] at hsettled
      exact .finishRelease hs hacc order (by simp [Host.queue, hp])
        (hsettled.resolve_left hst) (Host.granted_of_seen hseen)
        (fun key => by simp [Host.given_of_seen hseen, hst])
  case h_3 => exact .of_not_live id
  case h_4 => exact hacc

lemma Accounted.unlocked (order : List ℕ) : Accounted (h.unlocked order) := by
  unfold Host.unlocked
  split
  case h_1 l hp =>
    have hacc := hacc (by simp [hp])
    have hst := hacc.unlocking l true hp
    have hl : .release l ∈ h.queue := by simp [Host.queue, hp]
    have hdb := (hs.lifecycle.release l hl).2.1
    refine .finishRelease hs hacc order hl (fun m hm hkey _ _ hheld => ?_)
      (by simp [Host.granted, hp])
      (fun key => by simp [Host.given, hp, hst, eq_comm])
    -- The lease that is released is the only one of its key that is held.
    obtain ⟨hmem, hne⟩ := (hs.mem_removeNeeded hl).1 hm
    exact hne (hs.exclusion.unique m l (hs.lifecycle.live m hmem).2.1 hdb hheld hst hkey)
  case h_2 => exact hacc

/-! ## Every run -/

lemma Accounted.step {a : Action} (ha : Settled h a) : Accounted (step h a) := by
  cases a with
  | enter i connection key isLocal => exact hacc.apart hs (.enter hs i connection key isLocal)
  | call i =>
    refine hacc.apart hs ?_
    simp only [ResourceLease.step, Host.callStep]
    repeat' split
    all_goals exact .of_eq rfl rfl rfl rfl rfl
  | drop i =>
    refine hacc.apart hs ?_
    simp only [ResourceLease.step, Host.dropCall]
    split <;> exact .of_eq rfl rfl rfl rfl rfl
  | revoke connection => exact hacc.apart hs (.revoke connection)
  | retire l => exact hacc.apart hs (.retire hs l)
  | localStep l => exact hacc.apart hs (.localStep hs l)
  | localAbort l =>
    refine hacc.apart hs ?_
    simp only [ResourceLease.step, Host.localAbort]
    split <;> exact .of_eq rfl rfl rfl rfl rfl
  | shutdown => exact hacc.apart hs (.of_eq rfl rfl rfl rfl rfl)
  | stop =>
    refine hacc.apart hs ?_
    simp only [ResourceLease.step]
    split <;> exact .of_eq rfl rfl rfl rfl rfl
  | connect order => exact hacc.connect hs order
  | receive => exact hacc.receive
  | handle order => exact hacc.handle hs order ha
  | pop => exact hacc.pop
  | acquired => exact hacc.acquired hs
  | execute => exact hacc.execute hs
  | die => exact hacc.die
  | cancel forCommand => exact hacc.cancel forCommand
  | cancelled acquired => exact hacc.cancelled hs acquired
  | unlocked order => exact hacc.unlocked hs order
  | lose order => exact hacc.lose order
  | mark => exact hacc.mark

end

lemma Sound.granted_of_released {key : String}
    (hkey : ∀ l < h.count, (h.leases l).isLocal = false → (h.leases l).key = key →
      h.state l = .released) : h.granted key = 0 := by
  have hnot {l : ℕ} (hl : h.session.phase.acquires = some l) : (h.leases l).key ≠ key := by
    obtain ⟨hlt, hdb, hst⟩ := hs.statement_lt (.inl hl)
    exact fun hkey' => hst (hkey l hlt hdb hkey')
  unfold Host.granted
  split
  case h_1 l hp => exact if_neg (hnot (by simp [hp]))
  case h_2 l c hp => exact if_neg (hnot (by simp [hp]))
  case h_3 => rfl

end

/-- The locks of a session are accounted, where no lease is released that is not held while another
active one of its key is: each is held once for the held lease of its key, and not at all otherwise,
up to a statement whose result the task has not seen. A key whose leases are all released is
free. -/
theorem locks_are_accounted (hrun : Steps step Settled Host.start h)
    (hlive : h.session.phase.Live) (hdead : h.session.dead = false) (key : String) :
    (h.session.locks key + h.given key = (if h.Held key then 1 else 0) + h.granted key ∧
      (h.session.phase.Seen → h.session.locks key = if h.Held key then 1 else 0)) ∧
    (∀ l < h.count, ∀ m < h.count, (h.leases l).isLocal = false → (h.leases m).isLocal = false →
      (h.leases l).key = key → (h.leases m).key = key → h.state l = .held → h.state m = .held →
        l = m) ∧
    ((∀ l < h.count, (h.leases l).isLocal = false → (h.leases l).key = key →
      h.state l = .released) → h.session.locks key = 0) := by
  have hinv : Sound h ∧ Accounted h :=
    hrun.invariant (I := fun h => Sound h ∧ Accounted h)
      (fun _ a hI ha => ⟨hI.1.step a, hI.2.step hI.1 ha⟩) ⟨Sound.start, .of_not_live id⟩
  obtain ⟨hs, hacc⟩ := hinv
  have hlocks := (hacc hlive).locks hdead key
  refine ⟨⟨hlocks, fun hseen => ?_⟩, fun l _ m _ hl hm hkl hkm hsl hsm => ?_, fun hreleased => ?_⟩
  · rwa [Host.given_of_seen hseen, Host.granted_of_seen hseen] at hlocks
  · exact hs.exclusion.unique l m hl hm hsl hsm (hkl.trans hkm.symm)
  · have hheld : ¬ h.Held key := by
      rintro ⟨l, hlt, hdb, hkey, hst⟩
      simp [hreleased l hlt hdb hkey] at hst
    rw [if_neg hheld, hs.granted_of_released hreleased] at hlocks
    omega

namespace Sample

/-- Two connections share a resource. The first lease is held, the second waits. -/
def shared : List Action :=
  [.enter 0 "first" "resource" false, .enter 1 "second" "resource" false, .receive, .receive,
    .connect [0, 1], .pop, .execute, .acquired, .pop]

/-- The second connection is invalidated, and the first lease acquired again. -/
def again : Host :=
  Host.start.run (shared ++ [.revoke "second", .retire 1, .receive, .handle [0], .pop, .execute,
    .acquired])

/-- Then the first connection is invalidated, and its lease is released. -/
def leaked : Host :=
  again.run [.revoke "first", .retire 0, .receive, .handle [], .execute, .unlocked []]

/-- The session holds the lock twice for one lease, and once after all leases are released. -/
theorem held_lease_is_acquired_again :
    (¬ ∀ h : Host, h.Reachable → h.session.phase.Live → h.session.dead = false →
      h.session.phase.Seen → ∀ key, h.session.locks key = if h.Held key then 1 else 0) ∧
    ¬ ∀ h : Host, h.Reachable → h.session.phase.Live → h.session.dead = false →
      ∀ key, (∀ l < h.count, (h.leases l).isLocal = false → (h.leases l).key = key →
        h.state l = .released) → h.session.locks key = 0 := by
  have hphase : again.session.phase = .idle ∧ leaked.session.phase = .idle := by decide +kernel
  have hreach : leaked.Reachable := by
    refine ⟨shared ++ [.revoke "second", .retire 1, .receive, .handle [0], .pop, .execute,
      .acquired] ++ [.revoke "first", .retire 0, .receive, .handle [], .execute, .unlocked []], ?_⟩
    exact foldl_append
  constructor
  · intro hall
    have htwice : again.session.locks "resource" = 2 := by decide +kernel
    have honce := hall again ⟨_, rfl⟩ (by simp [hphase]) (by decide +kernel)
      (by simp [hphase]) "resource"
    rw [htwice] at honce
    split at honce <;> cases honce
  · intro hall
    have hnone := hall leaked hreach (by simp [hphase]) (by decide +kernel)
      "resource" (by decide +kernel)
    have hone : leaked.session.locks "resource" = 1 := by decide +kernel
    rw [hone] at hnone
    cases hnone

/-- The first connection of the two is invalidated: its lease is held. -/
def released : List Action :=
  shared ++ [.revoke "first", .retire 0, .receive, .handle [], .execute, .unlocked [1], .pop,
    .execute, .acquired]

/-- The lock goes from the one lease to the other and is held once. -/
theorem lock_is_passed_on :
    (Host.start.run released).session.locks "resource" = 1 ∧
      (Host.start.run released).state 1 = .held := by
  have hadmitted : Admitted step Settled Host.start released := by
    refine ⟨?_, ?_, ?_, ?_, ?_, ?_, ?_, ?_, ?_, ?_, ?_, ?_, ?_, ?_, ?_, ?_, ?_, ?_, trivial⟩ <;>
      decide +kernel
  have hphase : (Host.start.run released).session.phase = .idle := by decide +kernel
  have hheld : (Host.start.run released).Held "resource" := by decide +kernel
  have haccount := (locks_are_accounted (Steps.of_admitted hadmitted)
    (by simp [hphase]) (by decide +kernel) "resource").1.2
    (by simp [hphase])
  rw [if_pos hheld] at haccount
  exact ⟨haccount, by decide +kernel⟩

end Sample

end Wamn.ResourceLease
