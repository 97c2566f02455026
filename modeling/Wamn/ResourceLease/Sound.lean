import Wamn.ResourceLease.Invariant

/-!
# The steps of calls, revocations and local leases keep the invariant
-/

namespace Wamn.ResourceLease

open List Lib Function

variable {h : Host}

/-! ## Calls -/

section Mutexes

variable {count : ℕ} {calls : ℕ → Call} {owner : ℕ → Option ℕ} {i l : ℕ} {p : CallPhase}
  (hm : Mutexes count calls owner)

include hm

lemma Mutexes.move {owner' : ℕ → Option ℕ}
    (howner : ∀ m j, owner' m = some j ↔ (update calls i ⟨l, p⟩ j).lease = m ∧
      (update calls i ⟨l, p⟩ j).phase.Holds) (hl : p ≠ .ended → l < count) :
    Mutexes count (update calls i ⟨l, p⟩) owner' where
  owner := howner
  known j hj := by
    have := hm.known j
    grind [update_apply]

lemma Mutexes.outside (hold : ¬ (calls i).phase.Holds)
    (hnew : ¬ p.Holds) (hl : l < count) :
    Mutexes count (update calls i ⟨l, p⟩) owner := by
  refine hm.move (fun m j => ?_) fun _ => hl
  have := hm.owner m j
  grind [update_apply]

lemma Mutexes.inside (hold : (calls i).phase.Holds)
    (hnew : p.Holds) : Mutexes count (update calls i ⟨(calls i).lease, p⟩) owner := by
  refine hm.move (fun m j => ?_) fun _ => hm.known i fun hp => by simp [hp] at hold
  have := hm.owner m j
  grind [update_apply]

lemma Mutexes.lock (hold : (calls i).phase = .locking)
    (hfree : owner (calls i).lease = none) (hnew : p.Holds) :
    Mutexes count (update calls i ⟨(calls i).lease, p⟩)
      (update owner (calls i).lease (some i)) := by
  refine hm.move (fun m j => ?_) fun _ => hm.known i (by simp [hold])
  have := hm.owner m j
  have hout : ¬ (calls i).phase.Holds := by simp [hold]
  grind [update_apply]

lemma Mutexes.unlock (hold : (calls i).phase.Holds) :
    Mutexes count (update calls i ⟨(calls i).lease, .ended⟩)
      (update owner (calls i).lease none) := by
  refine hm.move (fun m j => ?_) fun hne => absurd rfl hne
  have := hm.owner m j
  have := hm.owner (calls i).lease j
  have := (hm.owner (calls i).lease i).2 ⟨rfl, hold⟩
  have hended : ¬ CallPhase.ended.Holds := id
  grind [update_apply]

end Mutexes

section LocalTasks

variable {leases : ℕ → Lease} {count : ℕ} {state : ℕ → LeaseState} {locals : ℕ → LocalTask}
  {localMap : String → Option ℕ} {mutexes : ℕ} {guards : ℕ → Option ℕ} {l n : ℕ} {t : LocalTask}
  (hl : LocalExclusion leases count state locals localMap mutexes guards)

include hl

lemma LocalExclusion.move {guards' : ℕ → Option ℕ} (habsent : locals l ≠ .absent)
    (hguard : ∀ m k, guards' k = some m ↔ (update locals l t m).guard? = some k)
    (hmutex : t.mutex? = none ∨ t.mutex? = (locals l).mutex?)
    (hheld : state l = .held → (∃ m, t = .holding m) ∨ t.Left) :
    LocalExclusion leases count state (update locals l t) localMap mutexes guards' where
  known m hm := by
    have := hl.known m
    have := hl.known l habsent
    grind [update_apply]
  guard := hguard
  mutex m k hm := by
    have := hl.mutex m k
    grind [update_apply]
  held m hm hst := by
    have := hl.held m hm hst
    grind [update_apply]

lemma LocalExclusion.keep (habsent : locals l ≠ .absent) (hguard : t.guard? = (locals l).guard?)
    (hmutex : t.mutex? = none ∨ t.mutex? = (locals l).mutex?)
    (hheld : state l = .held → (∃ m, t = .holding m) ∨ t.Left) :
    LocalExclusion leases count state (update locals l t) localMap mutexes guards := by
  refine hl.move habsent (fun m k => ?_) hmutex hheld
  have := hl.guard m k
  grind [update_apply]

lemma LocalExclusion.lock (hwaiting : locals l = .waiting n) (hfree : guards n = none) :
    LocalExclusion leases count state (update locals l (.locked n)) localMap mutexes
      (update guards n (some l)) := by
  have hknown := hl.known l (by simp [hwaiting])
  refine hl.move (by simp [hwaiting]) (fun m k => ?_) (by simp [hwaiting]) fun hst => ?_
  · have := hl.guard m k
    have := hl.guard m n
    grind [update_apply, LocalTask.guard?]
  · simpa [hwaiting] using hl.held l hknown.2 hst

lemma LocalExclusion.unlock (hguard : (locals l).guard? = some n) (ht : t.guard? = none)
    (hmutex : t.mutex? = none)
    (hheld : state l = .held → t.Left) :
    LocalExclusion leases count state (update locals l t) localMap mutexes
      (update guards n none) := by
  refine hl.move (fun habsent => ?_) (fun m k => ?_) (.inl hmutex) fun hst => .inr (hheld hst)
  · simp [habsent] at hguard
  · have := hl.guard m k
    have := hl.guard m n
    have := hl.guard l n
    grind [update_apply]

end LocalTasks

lemma Host.queue_append (c : Command) :
    Host.queue { h with channel := h.channel ++ [c] } = h.queue ++ [c] := by
  simp [Host.queue]

lemma Host.mem_queue_append {c c' : Command}
    (hc : c' ∈ Host.queue { h with channel := h.channel ++ [c] }) : c' ∈ h.queue ∨ c' = c := by
  rwa [Host.queue_append, mem_append, mem_singleton] at hc

variable (hs : Sound h)

include hs

lemma Sound.retired_of_free (hactive : h.active l = false)
    (hfree : h.owner l = none) : Retired h.active h.calls l := by
  refine ⟨hactive, fun i hi hp => ?_⟩
  have howner := (hs.mutexes.owner l i).2 ⟨hi, hp.holds⟩
  rw [hfree] at howner
  cases howner

/-- A call changes: its new phase has to be one that its lease allows. -/
theorem Sound.setCall {owner : ℕ → Option ℕ}
    (hfresh : ∀ m, h.count ≤ m → owner m = none)
    (hmutexes : Mutexes h.count (update h.calls i ⟨l, p⟩) owner)
    (hle : ∀ e, p.epoch? = some e → e ≤ h.epoch l) (hrunning : ∀ e, p.running? = some e →
      h.state l = .held ∨ (h.calls i).lease = l ∧ (h.calls i).phase.running? = some e)
    (hpassed : p.Passed → h.active l = true ∨ (h.calls i).lease = l ∧ (h.calls i).phase.Passed) :
    Sound { h with calls := update h.calls i ⟨l, p⟩, owner } := by
  have hretired {m : ℕ} (hm : Retired h.active h.calls m) :
      Retired h.active (update h.calls i ⟨l, p⟩) m := by
    refine ⟨hm.1, fun j hj => ?_⟩
    have := hm.1
    have := hm.2 j
    have := hm.2 i
    grind [update_apply]
  refine { hs with
    fresh := fun m hm => ?_, mutexes := hmutexes, epochs := ⟨?_, ?_⟩
    retirement := ⟨?_, ?_, hs.retirement.revoker, ?_⟩, marking := fun m rest hm => ?_ }
  · obtain ⟨ha, hst, he, -⟩ := hs.fresh m hm
    exact ⟨ha, hst, he, hfresh m hm⟩
  · intro j e
    have := hs.epochs.le j e
    grind [update_apply]
  · intro j hj
    have := hs.epochs.effective j
    by_cases hne : j = i
    · subst hne
      simp only [update_self] at hj ⊢
      rcases hrunning _ hj with hst | ⟨hl, hold⟩
      · exact .inl hst
      · subst hl
        exact this hold
    · simp only [update_of_ne hne] at hj ⊢
      exact this hj
  · exact fun m hm => hretired (hs.retirement.released m hm)
  · exact fun m hm => hretired (hs.retirement.release m hm)
  · exact fun m hm => hretired (hs.retirement.left m hm)
  · obtain ⟨hlost, hother⟩ := hs.marking m rest hm
    refine ⟨hlost, fun j hj hrun => ?_⟩
    by_cases hne : j = i
    · subst hne
      simp only [update_self] at hj hrun
      subst hj
      rcases hrunning _ hrun with hst | ⟨hl, hold⟩
      · simp [hlost] at hst
      · exact hother j hl hold
    · simp only [update_of_ne hne] at hj hrun
      exact hother j hj hrun

lemma Sound.outside (hold : ¬ (h.calls i).phase.Holds)
    (hnew : p = .ended ∨ p = .entered ∨ p = .locking) (hl : l < h.count) :
    Sound { h with calls := update h.calls i ⟨l, p⟩ } := by
  have hp : ¬ p.Holds ∧ p.epoch? = none ∧ p.running? = none ∧ ¬ p.Passed := by
    rcases hnew with rfl | rfl | rfl <;>
      simp
  obtain ⟨hholds, hepoch, hrunning, hpassed⟩ := hp
  exact hs.setCall (fun m hm => (hs.fresh m hm).2.2.2)
    (hs.mutexes.outside hold hholds hl) (by simp [-CallPhase.epoch?, hepoch])
    (by simp [-CallPhase.running?, hrunning])
    (fun hp => absurd hp hpassed)

/-- A call with the mutex moves to a phase that its lease allows. -/
theorem Sound.inside (hold : (h.calls i).phase.Holds) (hnew : p.Holds)
    (hle : ∀ e, p.epoch? = some e → e ≤ h.epoch (h.calls i).lease)
    (hrunning : ∀ e, p.running? = some e →
      h.state (h.calls i).lease = .held ∨ (h.calls i).phase.running? = some e)
    (hpassed : p.Passed → h.active (h.calls i).lease = true ∨ (h.calls i).phase.Passed) :
    Sound (h.setPhase i p) :=
  hs.setCall (fun m hm => (hs.fresh m hm).2.2.2)
    (hs.mutexes.inside hold hnew) hle
    (fun e hp => (hrunning e hp).imp_right fun hq => ⟨rfl, hq⟩)
    fun hp => (hpassed hp).imp_right fun hq => ⟨rfl, hq⟩

lemma Sound.lease_lt (hi : (h.calls i).phase ≠ .ended) :
    (h.calls i).lease < h.count :=
  hs.mutexes.known i hi

lemma Sound.endCall (hold : (h.calls i).phase.Holds) : Sound (h.endCall i) := by
  refine hs.setCall (p := .ended) (fun m hm => ?_) (hs.mutexes.unlock hold) ?_ ?_ ?_
  · have := (hs.fresh m hm).2.2.2
    grind [update_apply]
  all_goals simp

lemma Sound.callStep (i : ℕ) : Sound (h.callStep i) := by
  have hle := hs.epochs.le i
  unfold Host.callStep
  cases hp : (h.calls i).phase with
  | ended => exact hs
  | entered =>
    dsimp only
    split
    · exact hs.outside (by simp [hp]) (by simp) (hs.lease_lt (by simp [hp]))
    · exact hs
  | locking =>
    dsimp only
    split
    case isTrue hfree =>
      refine hs.setCall (p := .locked) (fun m hm => ?_)
        (hs.mutexes.lock hp hfree (by simp)) ?_ ?_ ?_
      · have := hs.lease_lt (i := i) (by simp [hp])
        have := (hs.fresh m hm).2.2.2
        grind [update_apply]
      all_goals simp
    case isFalse => exact hs
  | locked =>
    refine hs.inside ?_ ?_ ?_ ?_ ?_ <;>
      simp_all
  | loaded e | checked e =>
    rw [hp] at hle
    dsimp only
    split
    · refine hs.inside ?_ ?_ ?_ ?_ ?_ <;>
        simp_all
    · exact hs.endCall (by simp [hp])
  | running e =>
    rw [hp] at hle
    dsimp only
    split
    · refine hs.inside ?_ ?_ ?_ ?_ ?_ <;>
        simp_all
    · exact hs
  | asking e =>
    rw [hp] at hle
    refine hs.inside ?_ ?_ ?_ ?_ ?_ <;>
      simp_all

lemma Sound.dropCall (i : ℕ) : Sound (h.dropCall i) := by
  unfold Host.dropCall
  cases hp : (h.calls i).phase with
  | entered | locking =>
    exact hs.outside (by simp [hp]) (by simp) (hs.lease_lt (by simp [hp]))
  | running | asking => exact hs.endCall (by simp [hp])
  | ended | locked | loaded | checked => exact hs

lemma Sound.newLease (connection key : String) (isLocal : Bool)
    (hstopped : h.stopped = false) (hcurrent : h.current connection = none) :
    Sound (h.newLease connection key isLocal) := by
  obtain ⟨hactive, hstate, hepoch, howner⟩ := hs.fresh h.count (Nat.le_refl _)
  have hmap (l : ℕ) (hl : h.map connection = some l) : h.state l = .released := by
    by_contra hne
    simp [Host.current, hl, hne] at hcurrent
  have hstop : ¬ (.stop ∈ h.queue ∨ h.session.phase = .ended) := by
    intro hstop
    simp [(hs.stopping hstop).1] at hstopped
  have hneeded : h.count ∉ h.session.needed := fun hmem =>
    Nat.lt_irrefl _ (hs.lifecycle.live _ hmem).1
  have hmutexes : Mutexes (h.count + 1) h.calls h.owner :=
    ⟨hs.mutexes.owner, fun i hi => Nat.lt_succ_of_lt (hs.mutexes.known i hi)⟩
  have hfresh : Fresh (h.count + 1) h.active h.state h.epoch h.owner := fun l hl =>
    hs.fresh l (Nat.le_of_succ_le hl)
  -- What is stored in the atomics of the new lease is in them already.
  have heq : h.newLease connection key isLocal =
      { h with
        leases := update h.leases h.count ⟨key, isLocal, connection⟩
        count := h.count + 1
        map := update h.map connection (some h.count)
        channel := if isLocal then h.channel else h.channel ++ [.acquire h.count]
        locals := if isLocal then update h.locals h.count .spawned else h.locals } := by
    simp [Host.newLease, ← hactive, ← hstate, ← hepoch, ← howner]
  rw [heq]
  cases isLocal with
  | true =>
    refine { hs with
      fresh := hfresh, mutexes := hmutexes
      lifecycle := hs.lifecycle.newLease ⟨key, true, connection⟩ hstate hmap (.inl ⟨rfl, rfl⟩)
      retirement := { hs.retirement with left := fun l hl => ?_ }
      exclusion := hs.exclusion.newLease hstate hneeded
      marking := hs.marking.newLease hstate
      localExclusion := hs.localExclusion.newLocal hstate rfl
      stopping := fun hstop' => absurd hstop' hstop }
    have hne : l ≠ h.count := by
      rintro rfl
      simp at hl
    have hl : (update h.locals h.count .spawned l).Left := hl
    rw [update_of_ne hne] at hl
    exact hs.retirement.left l hl
  | false =>
    have hqueue : Host.queue { h with channel := h.channel ++ [.acquire h.count] } =
        h.queue ++ [.acquire h.count] := Host.queue_append _
    exact { hs with
      fresh := hfresh, mutexes := hmutexes
      lifecycle := hs.lifecycle.newLease ⟨key, false, connection⟩ hstate hmap (.inr ⟨rfl, hqueue⟩)
      retirement := { hs.retirement with
        release := fun l hl =>
          hs.retirement.release l ((Host.mem_queue_append hl).resolve_right (by simp)) }
      exclusion := hs.exclusion.newLease hstate hneeded
      marking := hs.marking.newLease hstate
      localExclusion := hs.localExclusion.newDatabase rfl
      stopping := fun hstop' => absurd
        (hstop'.imp_left fun hc => (Host.mem_queue_append hc).resolve_right (by simp)) hstop }

lemma Sound.enter (i : ℕ) (connection key : String) (isLocal : Bool) :
    Sound (h.enter i connection key isLocal) := by
  unfold Host.enter
  split
  · exact hs
  case isFalse hgo =>
    obtain ⟨hstopped, hended⟩ := not_or.1 hgo
    have hout : ¬ (h.calls i).phase.Holds := by simp [not_not.1 hended]
    split
    case h_1 l hl =>
      have hmap : h.map connection = some l := (Option.filter_eq_some_iff.1 hl).1
      exact hs.outside hout (by simp) (hs.lifecycle.known _ _ hmap).1
    case h_2 hnone =>
      have hnew := hs.newLease connection key isLocal (by simpa using hstopped) hnone
      exact hnew.outside (l := h.count) hout (.inr (.inl rfl)) (Nat.lt_succ_self _)

/-! ## Revocations -/

lemma Sound.revoke (connection : String) : Sound (h.revoke connection) := by
  unfold Host.revoke
  split
  case h_2 => exact hs
  case h_1 l hl =>
    split
    case isFalse => exact hs
    case isTrue hactive =>
      have hlt : l < h.count := (hs.lifecycle.known _ _ hl).1
      have hretired {m : ℕ} (hm : Retired h.active h.calls m) :
          Retired (update h.active l false) h.calls m := by
        refine ⟨?_, hm.2⟩
        have := hm.1
        grind [update_apply]
      have hnot {m : ℕ} (hm : Retired h.active h.calls m) : m ≠ l := by
        rintro rfl
        simp [hm.1] at hactive
      have hrevokers : l ∉ h.revokers := fun hmem => by
        simp [hs.retirement.revoker l hmem] at hactive
      refine { hs with
        fresh := fun m hm => ?_
        lifecycle := { hs.lifecycle with release := fun m hm => ?_, revoker := fun m hm => ?_,
                                          revokersNodup := ?_ }
        retirement := ⟨?_, ?_, ?_, ?_⟩
        exclusion := { hs.exclusion with waiting := fun m hm hactive' => ?_ } }
      · have := hs.fresh m hm
        grind [update_apply]
      · have := hs.lifecycle.release m hm
        have := hnot (hs.retirement.release m hm)
        grind
      · have hstate : h.state l ≠ .released := fun hst => hnot (hs.retirement.released l hst) rfl
        have := hs.lifecycle.revoker m
        grind
      · exact nodup_cons.2 ⟨hrevokers, hs.lifecycle.revokersNodup⟩
      · exact fun m hm => hretired (hs.retirement.released m hm)
      · exact fun m hm => hretired (hs.retirement.release m hm)
      · intro m hm
        have := hs.retirement.revoker m
        grind [update_apply]
      · exact fun m hm => hretired (hs.retirement.left m hm)
      · have := hs.exclusion.waiting m hm
        grind [update_apply]

lemma Sound.setLocalState {st : LeaseState} (hlt : l < h.count)
    (hlocal : (h.leases l).isLocal = true) (hst : st = .released ∧ Retired h.active h.calls l ∨
      st = .held ∧ ∃ m, h.locals l = .holding m) : Sound (h.set l st) := by
  have hdb {m : ℕ} (hm : (h.leases m).isLocal = false) :
      (h.set l st).state m = h.state m := by
    have hne : m ≠ l := by
      rintro rfl
      simp [hlocal] at hm
    exact update_of_ne hne _ _
  refine { hs with
    fresh := fun m hm => ?_
    epochs := { hs.epochs with effective := fun i hi => ?_ }
    lifecycle := { hs.lifecycle with
      current := fun m hm hm' => by rw [hdb hm']; exact hs.lifecycle.current m hm hm'
      acquire := fun m hm => ?_
      release := fun m hm => ?_
      live := fun m hm => ?_
      revoker := fun m hm => ?_ }
    retirement := { hs.retirement with released := fun m hm => ?_ }
    exclusion := { hs.exclusion with
      held := fun m hm => by rw [hdb hm]; exact hs.exclusion.held m hm
      unique := fun m m' hm hm' => by
        rw [hdb hm, hdb hm']
        exact hs.exclusion.unique m m' hm hm'
      statement := fun m hm => ?_ }
    marking := fun m rest hm => ?_
    localExclusion := { hs.localExclusion with held := fun m hm hheld => ?_ }
    stopping := fun hstop => ?_ }
  · have hne : m ≠ l := Nat.ne_of_gt (Nat.lt_of_lt_of_le hlt hm)
    simpa only [Host.set, update_of_ne hne] using hs.fresh m hm
  · rcases hst with ⟨rfl, hretired⟩ | ⟨rfl, -⟩
    · have hne : (h.calls i).lease ≠ l := fun hl =>
        hretired.2 i hl (CallPhase.passed_of_running? hi)
      simpa only [Effective, Host.set, update_of_ne hne] using hs.epochs.effective i hi
    · have := hs.epochs.effective i hi
      simp only [Effective, Host.set] at this ⊢
      grind [update_apply]
  · obtain ⟨h1, h2, h3, h4⟩ := hs.lifecycle.acquire m hm
    exact ⟨h1, h2, h3, by rw [hdb h2, h4]⟩
  · obtain ⟨h1, h2, h3, h4⟩ := hs.lifecycle.release m hm
    exact ⟨h1, h2, by rwa [hdb h2], h4⟩
  · obtain ⟨h1, h2, h3⟩ := hs.lifecycle.live m hm
    exact ⟨h1, h2, by rwa [hdb h2]⟩
  · obtain ⟨h1, h2⟩ := hs.lifecycle.revoker m hm
    exact ⟨h1, fun h3 => by rw [hdb h3]; exact h2 h3⟩
  · have := hs.retirement.released m
    simp only [Host.set] at hm ⊢
    grind [update_apply]
  · obtain ⟨h1, h2⟩ := hs.exclusion.statement m hm
    exact ⟨h1, fun m' hm' => by rw [hdb hm']; exact h2 m' hm'⟩
  · obtain ⟨h1, h2⟩ := hs.marking m rest hm
    have hm' := (hs.lifecycle.live m (hs.exclusion.counting m rest hm)).2.1
    exact ⟨by rw [hdb hm', h1], fun i hi hrun m' hm' hkey => by
      rw [hdb hm']; exact h2 i hi hrun m' hm' hkey⟩
  · have := hs.localExclusion.held m hm
    simp only [Host.set] at hheld ⊢
    grind [update_apply]
  · obtain ⟨h1, h2⟩ := hs.stopping hstop
    exact ⟨h1, fun m hm hm' => by rw [hdb hm']; exact h2 m hm hm'⟩

lemma Lifecycle.pairwise_release (hl : l ∈ h.revokers) :
    (h.queue ++ [Command.release l]).Pairwise Command.Before := by
  refine pairwise_append.2
    ⟨hs.lifecycle.order, pairwise_singleton _ _, fun c hc c' hc' m => ?_⟩
  obtain rfl := mem_singleton.1 hc'
  refine ⟨?_, fun _ => by simp⟩
  rintro rfl
  have hne : l ≠ m := by
    rintro rfl
    exact (hs.lifecycle.release l hc).2.2.2 hl
  simp [hne]

lemma Sound.isLocal_of_revoker (hl : l ∈ h.revokers)
    (hdb : ¬ ((h.leases l).isLocal = false ∧ h.session.phase ≠ .ended)) :
    (h.leases l).isLocal = true := by
  obtain ⟨hlt, hstate⟩ := hs.lifecycle.revoker l hl
  by_contra hne
  have hne : (h.leases l).isLocal = false := by simpa using hne
  have hphase : h.session.phase = .ended := by
    by_contra hphase
    exact hdb ⟨hne, hphase⟩
  exact hstate hne ((hs.stopping (.inr hphase)).2 l hlt hne)

lemma Sound.retire (l : ℕ) : Sound (h.retire l) := by
  unfold Host.retire
  split
  case isFalse => exact hs
  case isTrue hgo =>
    obtain ⟨hl, hfree⟩ := hgo
    obtain ⟨hlt, hstate⟩ := hs.lifecycle.revoker l hl
    have hactive : h.active l = false := hs.retirement.revoker l hl
    have hretired : Retired h.active h.calls l := hs.retired_of_free hactive hfree
    have hmem {m : ℕ} : m ∈ h.revokers.erase l ↔ m ≠ l ∧ m ∈ h.revokers :=
      hs.lifecycle.revokersNodup.mem_erase_iff
    have hnodup : (h.revokers.erase l).Nodup := hs.lifecycle.revokersNodup.erase l
    split
    case isTrue hdb =>
      obtain ⟨hdb, hphase⟩ := hdb
      refine { hs with
        lifecycle := { hs.lifecycle with
          acquire := fun m hm =>
            hs.lifecycle.acquire m ((Host.mem_queue_append hm).resolve_right (by simp))
          release := fun m hm => ?_
          revoker := fun m hm => hs.lifecycle.revoker m (hmem.1 hm).2
          order := ?_
          revokersNodup := hnodup }
        retirement := { hs.retirement with
          release := fun m hm => ?_
          revoker := fun m hm => hs.retirement.revoker m (hmem.1 hm).2 }
        stopping := fun hstop => hs.stopping
          (hstop.imp_left fun hc => (Host.mem_queue_append hc).resolve_right (by simp)) }
      · rcases Host.mem_queue_append hm with hm | hm
        · obtain ⟨h1, h2, h3, h4⟩ := hs.lifecycle.release m hm
          exact ⟨h1, h2, h3, fun hm' => h4 (hmem.1 hm').2⟩
        · cases hm
          exact ⟨hlt, hdb, hstate hdb, fun hm' => (hmem.1 hm').1 rfl⟩
      · rw [show Host.queue { h with
            revokers := h.revokers.erase l, channel := h.channel ++ [.release l] } =
              h.queue ++ [.release l] from Host.queue_append _]
        exact Lifecycle.pairwise_release hs hl
      · rcases Host.mem_queue_append hm with hm | hm
        · exact hs.retirement.release m hm
        · cases hm
          exact hretired
    case isFalse hdb =>
      have hlocal := hs.isLocal_of_revoker hl hdb
      have hset := hs.setLocalState hlt hlocal (.inl ⟨rfl, hretired⟩)
      exact { hset with
        lifecycle := { hset.lifecycle with
          release := fun m hm => by
            obtain ⟨h1, h2, h3, h4⟩ := hset.lifecycle.release m hm
            exact ⟨h1, h2, h3, fun hm' => h4 (hmem.1 hm').2⟩
          revoker := fun m hm => hset.lifecycle.revoker m (hmem.1 hm).2
          revokersNodup := hnodup }
        retirement := { hset.retirement with
          revoker := fun m hm => hset.retirement.revoker m (hmem.1 hm).2 } }

/-! ## Local leases -/

lemma Sound.lookupMutex {m : ℕ} (hm : (h.locals l).mutex? = some m) :
    h.lookupMutex (h.leases l).key = m := by
  have habsent : h.locals l ≠ .absent := by
    intro habsent
    simp [habsent] at hm
  have hlt := (hs.localExclusion.known l habsent).1
  simp only [Host.lookupMutex, (hs.localExclusion.mutex l m hm).1]
  rw [if_pos ⟨l, hlt, hm⟩]

lemma LocalExclusion.lookup (hl : h.locals l = .spawned) :
    LocalExclusion h.leases h.count h.state
      (update h.locals l (.waiting (h.lookupMutex (h.leases l).key)))
      (update h.localMap (h.leases l).key (some (h.lookupMutex (h.leases l).key)))
      (max h.mutexes (h.lookupMutex (h.leases l).key + 1)) h.guards where
  known m hm := by
    have := hs.localExclusion.known m
    have := hs.localExclusion.known l
    grind [update_apply]
  guard m n := by
    have := hs.localExclusion.guard m n
    grind [update_apply, LocalTask.guard?]
  mutex m n hm := by
    have hother (hne : m ≠ l) (hmut : (h.locals m).mutex? = some n) :
        update h.localMap (h.leases l).key
          (some (h.lookupMutex (h.leases l).key)) (h.leases m).key = some n ∧ n < h.mutexes := by
      obtain ⟨hmap, hlt⟩ := hs.localExclusion.mutex m n hmut
      refine ⟨?_, hlt⟩
      by_cases hkey : (h.leases m).key = (h.leases l).key
      · rw [hkey, update_self, ← hkey, hs.lookupMutex hmut]
      · rwa [update_of_ne hkey]
    grind [update_apply, LocalTask.mutex?]
  held m hm hheld := by
    have := hs.localExclusion.held m hm hheld
    grind [update_apply, LocalTask.Left]

lemma Sound.setLocal {t : LocalTask} {localMap : String → Option ℕ} {mutexes : ℕ}
    {guards : ℕ → Option ℕ}
    (hlocal : LocalExclusion h.leases h.count h.state (update h.locals l t) localMap
      mutexes guards) (hleft : t.Left → Retired h.active h.calls l) :
    Sound { h with locals := update h.locals l t, localMap, mutexes, guards } := by
  refine { hs with
    retirement := { hs.retirement with left := fun m hm => ?_ }
    localExclusion := hlocal }
  have := hs.retirement.left m
  grind [update_apply]

lemma Sound.not_held (habsent : h.locals l ≠ .absent)
    (hholding : ∀ m, h.locals l ≠ .holding m) (hleft : ¬ (h.locals l).Left) :
    h.state l ≠ .held := by
  intro hheld
  rcases hs.localExclusion.held l (hs.localExclusion.known l habsent).2 hheld with ⟨m, hm⟩ | hl
  · exact hholding m hm
  · exact hleft hl

lemma Sound.localStep (l : ℕ) : Sound (h.localStep l) := by
  unfold Host.localStep
  split
  case h_1 hl => exact hs.setLocal (LocalExclusion.lookup hs hl) (by simp)
  case h_2 m hl =>
    split
    · exact hs.setLocal (hs.localExclusion.lock hl ‹_›) (by simp)
    · exact hs
  case h_3 m hl =>
    have hnot : h.state l ≠ .held :=
      hs.not_held (by simp [hl]) (by simp [hl]) (by simp [hl])
    split
    · refine hs.setLocal (hs.localExclusion.keep (by simp [hl]) ?_ ?_ ?_) ?_ <;>
        simp [hl, hnot]
    · refine hs.setLocal (hs.localExclusion.unlock (n := m) ?_ ?_ ?_ ?_) ?_ <;>
        simp [hl, hnot]
  case h_4 m hl =>
    have hknown := hs.localExclusion.known l (by simp [hl])
    have hkeep : Sound (h.setLocal l (.holding m)) := by
      refine hs.setLocal (hs.localExclusion.keep (by simp [hl]) ?_ ?_ ?_) ?_ <;>
        simp [hl]
    exact hkeep.setLocalState hknown.1 hknown.2
      (.inr ⟨rfl, m, by simp [Host.setLocal]⟩)
  case h_5 m hl =>
    split
    case isTrue hend =>
      have hretired : Retired h.active h.calls l := by
        rcases hend with hst | ⟨hactive, hfree⟩
        · exact hs.retirement.released l hst
        · exact hs.retired_of_free hactive hfree
      refine hs.setLocal (hs.localExclusion.keep (by simp [hl]) ?_ ?_ ?_) fun _ => hretired <;>
        simp [hl]
    case isFalse => exact hs
  case h_6 m hl =>
    have hretired := hs.retirement.left l (by simp [hl])
    refine hs.setLocal (hs.localExclusion.unlock (n := m) ?_ ?_ ?_ ?_) fun _ => hretired <;>
      simp [hl]
  case h_7 hl =>
    have hknown := hs.localExclusion.known l (by simp [hl])
    have hretired := hs.retirement.left l (by simp [hl])
    have hset := hs.setLocalState hknown.1 hknown.2 (.inl ⟨rfl, hretired⟩)
    have hlocals : (h.set l .released).locals l = .releasing := hl
    refine hset.setLocal (hset.localExclusion.keep (by simp [hlocals]) ?_ ?_ ?_) ?_ <;>
      simp [Host.set, hl]
  case h_8 => exact hs

lemma Sound.localAbort (l : ℕ) : Sound (h.localAbort l) := by
  unfold Host.localAbort
  split
  case h_1 m hl =>
    have hnot : h.state l ≠ .held :=
      hs.not_held (by simp [hl]) (by simp [hl]) (by simp [hl])
    refine hs.setLocal (hs.localExclusion.keep (by simp [hl]) ?_ ?_ ?_) ?_ <;>
      simp [hl, hnot]
  case h_2 => exact hs

end Wamn.ResourceLease
