import Wamn.ResourceLease.Sound

/-!
# The steps of the session task keep the invariant
-/

namespace Wamn.ResourceLease

open List Lib Function

/-! ## The queue and the needed leases -/

section Lifecycle

variable {leases : ℕ → Lease} {count : ℕ} {map : String → Option ℕ} {state : ℕ → LeaseState}
  {queue : List Command} {needed revokers : List ℕ} {c : Command} {l m : ℕ}

lemma Lifecycle.tail (h : Lifecycle leases count map state (c :: queue) needed revokers) :
    Lifecycle leases count map state queue needed revokers :=
  { h with
    acquire := fun l hl => h.acquire l (mem_cons_of_mem _ hl)
    release := fun l hl => h.release l (mem_cons_of_mem _ hl)
    order := (pairwise_cons.1 h.order).2 }

lemma Lifecycle.connection_ne (h : Lifecycle leases count map state queue needed revokers)
    (hl : l < count) (hdb : (leases l).isLocal = false) (hst : state l ≠ .released)
    (hm : m ∈ needed) (hne : m ≠ l) : (leases m).connection ≠ (leases l).connection := by
  intro hconn
  obtain ⟨hmlt, hmdb, hmst⟩ := h.live m hm
  have hcur := h.current l hl hdb hst
  rw [← hconn, h.current m hmlt hmdb hmst] at hcur
  exact hne (Option.some.inj hcur)

lemma Lifecycle.acquireHead
    (h : Lifecycle leases count map state (.acquire l :: queue) needed revokers) :
    Lifecycle leases count map state queue (l :: needed) revokers := by
  obtain ⟨hlt, hdb, hnot, hst⟩ := h.acquire l mem_cons_self
  refine { h.tail with
    acquire := fun m hm => ?_
    live := fun m hm => ?_
    neededNodup := nodup_cons.2 ⟨hnot, h.neededNodup⟩ }
  · have hne : m ≠ l := by
      rintro rfl
      exact ((pairwise_cons.1 h.order).1 _ hm m).2 rfl rfl
    obtain ⟨h1, h2, h3, h4⟩ := h.tail.acquire m hm
    exact ⟨h1, h2, by simp [hne, h3], h4⟩
  · rcases mem_cons.1 hm with rfl | hm
    · exact ⟨hlt, hdb, by simp [hst]⟩
    · exact h.live m hm

lemma Lifecycle.setNeeded (h : Lifecycle leases count map state queue needed revokers)
    (hl : l ∈ needed) {st : LeaseState} (hst : st ≠ .released) :
    Lifecycle leases count map (update state l st) queue needed revokers := by
  have hlive := (h.live l hl).2.2
  refine { h with
    current := fun m hm hmdb hmst => h.current m hm hmdb ?_
    acquire := fun m hm => ?_
    release := fun m hm => ?_
    live := fun m hm => ?_
    revoker := fun m hm => ?_ }
  · grind [update_apply]
  · have hne : m ≠ l := by
      rintro rfl
      exact (h.acquire m hm).2.2.1 hl
    rw [update_of_ne hne]
    exact h.acquire m hm
  · have := h.release m hm
    grind [update_apply]
  · have := h.live m hm
    grind [update_apply]
  · have := h.revoker m hm
    grind [update_apply]

lemma Lifecycle.releaseHead
    (h : Lifecycle leases count map state (.release l :: queue) needed revokers)
    {needed' : List ℕ} (hneeded : ∀ m, m ∈ needed' ↔ m ∈ needed ∧ m ≠ l)
    (hnodup : needed'.Nodup) :
    Lifecycle leases count map (update state l .released) queue needed' revokers := by
  obtain ⟨hlt, hdb, hst, hrevokers⟩ := h.release l mem_cons_self
  have hbefore (c : Command) (hc : c ∈ queue) : c ≠ .release l ∧ c ≠ .acquire l :=
    ((pairwise_cons.1 h.order).1 c hc l).1 rfl
  refine { h.tail with
    current := fun m hm hmdb hmst => ?_
    acquire := fun m hm => ?_
    release := fun m hm => ?_
    live := fun m hm => ?_
    revoker := fun m hm => ?_
    neededNodup := hnodup }
  · have hne : m ≠ l := by
      rintro rfl
      simp at hmst
    rw [update_of_ne hne] at hmst
    exact h.current m hm hmdb hmst
  · have hne : m ≠ l := by
      rintro rfl
      exact (hbefore _ hm).2 rfl
    obtain ⟨h1, h2, h3, h4⟩ := h.tail.acquire m hm
    exact ⟨h1, h2, fun hm' => h3 ((hneeded m).1 hm').1, by rwa [update_of_ne hne]⟩
  · have hne : m ≠ l := by
      rintro rfl
      exact (hbefore _ hm).1 rfl
    rw [update_of_ne hne]
    exact h.tail.release m hm
  · obtain ⟨hm, hne⟩ := (hneeded m).1 hm
    rw [update_of_ne hne]
    exact h.live m hm
  · have hne : m ≠ l := by
      rintro rfl
      exact hrevokers hm
    rw [update_of_ne hne]
    exact h.revoker m hm

end Lifecycle

variable {h : Host} {s : Session} {active : ℕ → Bool} {p' : SessionPhase}

/-! ## Phases -/

namespace SessionPhase

@[simp]
def Live : SessionPhase → Prop
  | .idle | .acquiring _ _ | .cancelling _ _ _ | .received _ | .unlocking _ _ => True
  | _ => False

variable {p : SessionPhase}

lemma Live.covers (hp : p.Live) (needed : List ℕ) : p.covers needed = needed := by
  cases p <;> first | rfl | cases hp

lemma Live.not_counting (hp : p.Live) (l : ℕ) (rest : List ℕ) : p ≠ .counting l rest := by
  rintro rfl
  exact hp

lemma Live.ne_ended (hp : p.Live) : p ≠ .ended := by
  rintro rfl
  exact hp

lemma Live.not_sessionless (hp : p.Live) : ¬ p.Sessionless := by
  cases p <;> first | exact id | cases hp

end SessionPhase

lemma Effective.held (hl : Effective state p l) (hp : ∀ l rest, p ≠ .counting l rest) :
    state l = .held := by
  rcases hl with hl | ⟨rest, hl⟩
  · exact hl
  · exact absurd hl (hp l rest)

/-- Within a session: a lease whose acquire begins excludes the other ones of its key. -/
theorem Exclusion.live {needed' pending pending' : List ℕ}
    (he : Exclusion leases active state p needed pending) (hp' : p'.Live)
    (hneeded : ∀ m ∈ needed, m ∈ needed')
    (hstatement : ∀ l, p'.acquires = some l → p.acquires = some l ∨ l ∈ needed' ∧
      ∀ m, (leases m).isLocal = false → state m = .held → (leases m).key = (leases l).key → m = l)
    (hpending : ∀ m ∈ pending', m ∈ pending ∨ (active m = true → m ∈ needed')) :
    Exclusion leases active state p' needed' pending' where
  held l hdb hl := by
    rw [hp'.covers]
    exact hneeded l (he.covers l (he.held l hdb hl))
  covers l hl := by rwa [hp'.covers] at hl
  counting l rest hl := absurd hl (hp'.not_counting l rest)
  unique := he.unique
  statement l hl := by
    rcases hstatement l hl with hl | hl
    · exact ⟨hneeded l (he.statement l hl).1, (he.statement l hl).2⟩
    · exact hl
  waiting m hm hactive := by
    rcases hpending m hm with hm | hm
    · exact hneeded m (he.waiting m hm hactive)
    · exact hm hactive

/-- The task moves to a phase without an acquire in which the held leases are still known. -/
theorem Exclusion.move {needed' pending pending' : List ℕ}
    (he : Exclusion leases active state p needed pending)
    (hcounting : ∀ l rest, p' ≠ .counting l rest) (hnone : p'.acquires = none)
    (hheld : ∀ l, (leases l).isLocal = false → state l = .held → l ∈ p'.covers needed')
    (hcovers : ∀ l ∈ p'.covers needed', l ∈ needed')
    (hwaiting : ∀ m ∈ pending', active m = true → m ∈ needed') :
    Exclusion leases active state p' needed' pending' where
  held := hheld
  covers := hcovers
  counting l rest hl := absurd hl (hcounting l rest)
  unique := he.unique
  statement l hl := by
    rw [hnone] at hl
    cases hl
  waiting := hwaiting

lemma live_afterCancel (command : Option Command) : (Host.afterCancel command).Live := by
  cases command <;> trivial

lemma acquires_afterCancel (command : Option Command) :
    (Host.afterCancel command).acquires = none := by
  cases command <;> rfl

lemma command_afterCancel (command : Option Command) :
    (Host.afterCancel command).command = command.toList := by
  cases command <;> rfl

lemma Exclusion.setLost {pending rest : List ℕ}
    (he : Exclusion leases active state (.losing (l :: rest)) needed pending) :
    Exclusion leases active (update state l .lost) (.counting l rest) needed pending := by
  have hstate {m : ℕ} (hm : update state l .lost m = .held) :
      m ≠ l ∧ state m = .held := by
    grind [update_apply]
  constructor
  · intro m hm hst
    obtain ⟨hne, hst⟩ := hstate hst
    exact (mem_cons.1 (he.held m hm hst)).resolve_left hne
  · exact fun m hm => he.covers m (mem_cons_of_mem _ hm)
  · intro m rest' hm
    simp only [SessionPhase.counting.injEq] at hm
    exact hm.1 ▸ he.covers l mem_cons_self
  · intro m m' hm hm' hst hst'
    exact he.unique m m' hm hm' (hstate hst).2 (hstate hst').2
  · exact fun m hm => nomatch hm
  · exact he.waiting

/-- Handling a command leaves the task in its session, or without one. -/
def Handles (p p' : SessionPhase) : Prop :=
  p = .down ∧ p' = .down ∨ p.Live ∧ p' = .idle

lemma Handles.not_counting (hp : Handles p p') (l : ℕ) (rest : List ℕ) :
    p ≠ .counting l rest ∧ p' ≠ .counting l rest := by
  rcases hp with ⟨rfl, rfl⟩ | ⟨hp, rfl⟩
  · simp
  · exact ⟨hp.not_counting l rest, by simp⟩

lemma Handles.acquires (hp : Handles p p') : p'.acquires = none := by
  rcases hp with ⟨rfl, rfl⟩ | ⟨hp, rfl⟩ <;> rfl

lemma Handles.ne_ended (hp : Handles p p') : p' ≠ .ended := by
  rcases hp with ⟨rfl, rfl⟩ | ⟨hp, rfl⟩ <;> simp

lemma Handles.mem_covers (hp : Handles p p') {needed' : List ℕ} (hl : l ∈ p.covers needed)
    (hneeded : l ∈ needed → l ∈ needed') : l ∈ p'.covers needed' := by
  rcases hp with ⟨rfl, rfl⟩ | ⟨hp, rfl⟩
  · exact hl
  · rw [hp.covers] at hl
    exact hneeded hl

lemma Handles.covers (hp : Handles p p') (hl : l ∈ p'.covers needed) : l ∈ needed := by
  rcases hp with ⟨rfl, rfl⟩ | ⟨hp, rfl⟩
  · cases hl
  · exact hl

lemma Host.nextCommand_cases {c : Command} {h' : Host} (hc : h.nextCommand = some (c, h')) :
    ∃ channel deferred, h' = { h with channel, session := { h.session with deferred } } ∧
      deferred = none ∧
      h.session.deferred.toList ++ h.channel = c :: (deferred.toList ++ channel) := by
  unfold Host.nextCommand at hc
  split at hc
  case h_1 c' hdeferred =>
    simp only [Option.some.injEq, Prod.mk.injEq] at hc
    obtain ⟨rfl, rfl⟩ := hc
    exact ⟨h.channel, none, rfl, rfl, by simp [hdeferred]⟩
  case h_2 c' rest hdeferred hchannel =>
    simp only [Option.some.injEq, Prod.mk.injEq] at hc
    obtain ⟨rfl, rfl⟩ := hc
    exact ⟨rest, none, by simp [← hdeferred], rfl, by simp [hdeferred, hchannel]⟩
  case h_3 => cases hc

/-! ## Steps that change no lease -/

section Steps

variable {channel : List Command} (hs : Sound h)

include hs

lemma Sound.mem_removeNeeded {m : ℕ} (hl : .release l ∈ h.queue) :
    m ∈ h.removeNeeded l ↔ m ∈ h.session.needed ∧ m ≠ l := by
  obtain ⟨hlt, hdb, hst, -⟩ := hs.lifecycle.release l hl
  simp only [Host.removeNeeded, mem_filter, decide_eq_true_eq]
  constructor
  · rintro ⟨hm, hconn⟩
    exact ⟨hm, fun hne => hconn (by rw [hne])⟩
  · rintro ⟨hm, hne⟩
    exact ⟨hm, hs.lifecycle.connection_ne hlt hdb hst hm hne⟩

lemma Sound.insertNeeded (hl : .acquire l ∈ h.queue) :
    h.insertNeeded l = l :: h.session.needed := by
  obtain ⟨hlt, hdb, hnot, hst⟩ := hs.lifecycle.acquire l hl
  rw [Host.insertNeeded, Host.removeNeeded, filter_eq_self.2]
  intro m hm
  have hne : m ≠ l := by
    rintro rfl
    exact hnot hm
  simpa using hs.lifecycle.connection_ne hlt hdb (by simp [hst]) hm hne

lemma Sound.deferred_none (hp : h.session.phase.Live) : h.session.deferred = none := by
  by_contra hne
  exact hp.not_sessionless (hs.deferred hne)

lemma Sound.setSession (hcounting : ∀ l rest, h.session.phase ≠ .counting l rest)
    (hcounting' : ∀ l rest, s.phase ≠ .counting l rest)
    (hqueue : Host.queue { h with channel, session := s } = h.queue)
    (hneeded : s.needed = h.session.needed)
    (hexclusion : Exclusion h.leases h.active h.state s.phase s.needed s.pending)
    (hended : s.phase ≠ .ended) (hdeferred : s.deferred ≠ none → s.phase.Sessionless) :
    Sound { h with channel, session := s } := by
  refine { hs with
    epochs := { hs.epochs with
      effective := fun i hi => .inl ((hs.epochs.effective i hi).held hcounting) }
    lifecycle := ?_, retirement := ?_, exclusion := hexclusion
    marking := fun l rest hl => absurd hl (hcounting' l rest)
    stopping := fun hstop => ?_, deferred := hdeferred }
  · rw [hqueue]
    exact hneeded ▸ hs.lifecycle
  · rw [hqueue]
    exact hs.retirement
  · rw [hqueue] at hstop
    exact hs.stopping (.inl (hstop.resolve_right hended))

lemma Sound.moveLive (hp : h.session.phase.Live) (hp' : s.phase.Live)
    (hqueue : Host.queue { h with channel, session := s } = h.queue)
    (hneeded : s.needed = h.session.needed) (hdeferred : s.deferred = none)
    (hstatement : ∀ l, s.phase.acquires = some l → h.session.phase.acquires = some l ∨
      l ∈ s.needed ∧ ∀ m, (h.leases m).isLocal = false → h.state m = .held →
        (h.leases m).key = (h.leases l).key → m = l)
    (hpending : ∀ m ∈ s.pending, m ∈ h.session.pending ∨ (h.active m = true → m ∈ s.needed)) :
    Sound { h with channel, session := s } :=
  hs.setSession hp.not_counting hp'.not_counting hqueue hneeded
    (hs.exclusion.live hp' (by simp [hneeded]) hstatement hpending) hp'.ne_ended
    fun hne => absurd hdeferred hne

lemma Sound.connect (order : List ℕ) : Sound (h.connect order) := by
  unfold Host.connect
  split
  case isFalse => exact hs
  case isTrue hgo =>
    obtain ⟨hdown, hdeferred, -, hperm⟩ := hgo
    have hperm : order.Perm h.session.needed := isPerm_iff.1 hperm
    have hcounting (l : ℕ) (rest : List ℕ) : h.session.phase ≠ .counting l rest := by
      simp [hdown]
    -- Without a session no database lease is held.
    have hheld (l : ℕ) (hl : (h.leases l).isLocal = false) : h.state l ≠ .held := by
      intro hst
      have hmem := hs.exclusion.held l hl hst
      simp [hdown] at hmem
    refine hs.setSession hcounting (by simp) ?_ rfl ?_ (by simp) (by simp [hdeferred])
    · simp [Host.queue, hdown]
    · constructor
      · exact fun l hl hst => absurd hst (hheld l hl)
      · exact fun l hl => hl
      · simp
      · exact hs.exclusion.unique
      · simp
      · exact fun l hl _ => hperm.mem_iff.1 (mem_filter.1 hl).1

lemma Sound.pop : Sound h.pop := by
  unfold Host.pop
  split
  case h_1 l pending hidle hdeferred hpending =>
    have hlive : h.session.phase.Live := by simp [hidle]
    have hrest (m : ℕ) (hm : m ∈ pending) : m ∈ h.session.pending := by simp [hpending, hm]
    split
    case isTrue =>
      exact hs.moveLive hlive hlive rfl rfl hdeferred (fun _ => .inl) fun m hm => .inl (hrest m hm)
    case isFalse hgo =>
      obtain ⟨hactive, hother⟩ := not_or.1 hgo
      have hl : l ∈ h.session.needed :=
        hs.exclusion.waiting l (by simp [hpending]) (by simpa using hactive)
      obtain ⟨hlt, hdb, hst⟩ := hs.lifecycle.live l hl
      refine hs.moveLive hlive trivial ?_ rfl hdeferred ?_ fun m hm => .inl (hrest m hm)
      · simp [Host.queue, hidle]
      · intro l' hl'
        obtain rfl : l = l' := by simpa using hl'
        refine .inr ⟨hl, fun m hm hheld hkey => ?_⟩
        by_contra hne
        have hmem : m ∈ h.session.needed := hs.exclusion.covers m (hs.exclusion.held m hm hheld)
        exact hother
          ⟨m, hmem, hs.lifecycle.connection_ne hlt hdb hst hmem hne, hkey, hheld⟩
  case h_2 => exact hs

lemma Sound.execute : Sound h.execute := by
  unfold Host.execute
  split
  · exact hs
  · split
    case h_1 l hp | h_2 l c hp | h_3 l hp =>
      have hlive : h.session.phase.Live := by simp [hp]
      refine hs.moveLive hlive trivial ?_ rfl (hs.deferred_none hlive) ?_ fun m hm => .inl hm
      · simp [Host.queue, hp]
      · simp [hp]
    case h_4 => exact hs

lemma Sound.die : Sound h.die :=
  { hs with }

lemma Sound.cancel (forCommand : Bool) : Sound (h.cancel forCommand) := by
  unfold Host.cancel
  split
  case h_1 l granted c rest hp hchannel =>
    have hlive : h.session.phase.Live := by simp [hp]
    have hdeferred := hs.deferred_none hlive
    refine hs.moveLive hlive trivial ?_ rfl hdeferred ?_ fun m hm => .inl hm
    · simp [Host.queue, hp, hdeferred, hchannel]
    · simp [hp]
  case h_2 l granted hp =>
    have hlive : h.session.phase.Live := by simp [hp]
    split
    · refine hs.moveLive hlive trivial ?_ rfl (hs.deferred_none hlive) ?_ fun m hm => .inl hm
      · simp [Host.queue, hp]
      · simp [hp]
    · exact hs
  case h_3 => exact hs

lemma Sound.lose (order : List ℕ) : Sound (h.lose order) := by
  unfold Host.lose
  split
  case isFalse => exact hs
  case isTrue hperm =>
    have hperm : order.Perm h.session.needed := isPerm_iff.1 hperm
    have hgo (hlive : h.session.phase.Live) (hreceived : ∀ c, h.session.phase ≠ .received c) :
        Sound { h with session := { h.session with
          phase := .losing order, deferred := h.session.unhandled, pending := [] } } := by
      refine hs.setSession hlive.not_counting (by simp) ?_ rfl ?_ (by simp) fun _ => trivial
      · have hdeferred := hs.deferred_none hlive
        cases hp : h.session.phase with
        | cancelling l granted c =>
          cases c <;> simp [Host.queue, hp, hdeferred, Session.unhandled]
        | received c => exact absurd hp (hreceived c)
        | _ => simp [Host.queue, hp, hdeferred, Session.unhandled]
      · refine hs.exclusion.move (by simp) rfl (fun l hl hst => ?_)
          (fun l hl => hperm.mem_iff.1 hl) (by simp)
        exact hperm.mem_iff.2 (hs.exclusion.covers l (hs.exclusion.held l hl hst))
    split
    case h_1 hp | h_2 hp | h_3 hp | h_4 hp =>
      exact hgo (by simp [hp]) (by simp [hp])
    case h_5 => exact hs

/-! ## Leases become held and lost -/

lemma Sound.setNeeded {st : LeaseState} (hl : l ∈ h.session.needed) (hst : st ≠ .released)
    (hqueue : Host.queue { h with session := s } = h.queue) (hneeded : s.needed = h.session.needed)
    (hepochs : Epochs h.calls (update h.state l st) h.epoch s.phase)
    (hexclusion : Exclusion h.leases h.active (update h.state l st) s.phase s.needed
      s.pending)
    (hmarking : Marking h.leases h.calls (update h.state l st) h.epoch s.phase)
    (hended : s.phase ≠ .ended) (hdeferred : s.deferred ≠ none → s.phase.Sessionless) :
    Sound { h.set l st with session := s } := by
  obtain ⟨hlt, hdb, hlive⟩ := hs.lifecycle.live l hl
  have hqueue : Host.queue { h.set l st with session := s } = h.queue := hqueue
  refine { hs with
    fresh := fun m hm => ?_
    epochs := hepochs
    lifecycle := ?_
    retirement := { hs.retirement with released := fun m hm => ?_, release := ?_ }
    exclusion := hexclusion
    marking := hmarking
    localExclusion := { hs.localExclusion with held := fun m hm hheld => ?_ }
    stopping := fun hstop => ?_
    deferred := hdeferred }
  · have hne : m ≠ l := Nat.ne_of_gt (Nat.lt_of_lt_of_le hlt hm)
    simpa only [Host.set, update_of_ne hne] using hs.fresh m hm
  · rw [hqueue]
    exact hneeded ▸ hs.lifecycle.setNeeded hl hst
  · have hne : m ≠ l := by
      rintro rfl
      simp [Host.set, hst] at hm
    exact hs.retirement.released m (by simpa [Host.set, hne] using hm)
  · rw [hqueue]
    exact hs.retirement.release
  · have hne : m ≠ l := by
      rintro rfl
      simp [Host.set, hdb] at hm
    exact hs.localExclusion.held m hm (by simpa [Host.set, hne] using hheld)
  · rw [hqueue] at hstop
    exact absurd ((hs.stopping (.inl (hstop.resolve_right hended))).2 l hlt hdb) hlive

lemma Sound.setHeld (hp : h.session.phase.Live) (hl : h.session.phase.acquires = some l)
    (hp' : s.phase.Live) (hnone : s.phase.acquires = none)
    (hqueue : Host.queue { h with session := s } = h.queue) (hneeded : s.needed = h.session.needed)
    (hpending : s.pending = h.session.pending) (hdeferred : s.deferred = none) :
    Sound { h.set l .held with session := s } := by
  obtain ⟨hmem, hother⟩ := hs.exclusion.statement l hl
  have hdb := (hs.lifecycle.live l hmem).2.1
  have hheld {m : ℕ} (hm : update h.state l .held m = .held) :
      m = l ∨ h.state m = .held := by
    grind [update_apply]
  refine hs.setNeeded hmem (by simp) hqueue hneeded ?_ ?_
    (fun m rest hm => absurd hm (hp'.not_counting m rest)) hp'.ne_ended
    fun hne => absurd hdeferred hne
  · refine { hs.epochs with effective := fun i hi => .inl ?_ }
    have := (hs.epochs.effective i hi).held hp.not_counting
    grind [update_apply]
  · refine ⟨fun m hm hst => ?_, fun m hm => ?_,
      fun m rest hm => absurd hm (hp'.not_counting m rest),
      fun m m' hm hm' hem hem' hkey => ?_, fun m hm => ?_, fun m hm => ?_⟩
    · rw [hp'.covers, hneeded]
      rcases hheld hst with rfl | hst
      · exact hmem
      · exact hs.exclusion.covers m (hs.exclusion.held m hm hst)
    · rwa [hp'.covers] at hm
    · rcases hheld hem with rfl | hst <;> rcases hheld hem' with rfl | hst'
      · rfl
      · exact (hother m' hm' hst' hkey.symm).symm
      · exact hother m hm hst hkey
      · exact hs.exclusion.unique m m' hm hm' hst hst' hkey
    · rw [hnone] at hm
      cases hm
    · rw [hneeded]
      exact hs.exclusion.waiting m (hpending ▸ hm)

lemma Sound.acquired : Sound h.acquired := by
  unfold Host.acquired
  split
  case h_1 l hp =>
    have hlive : h.session.phase.Live := by simp [hp]
    refine hs.setHeld hlive (by simp [hp]) trivial rfl ?_ rfl rfl
      (hs.deferred_none hlive)
    simp [Host.queue, hp]
  case h_2 => exact hs

lemma Sound.cancelled (acquired : Bool) : Sound (h.cancelled acquired) := by
  unfold Host.cancelled
  split
  case h_1 l command hp =>
    have hlive : h.session.phase.Live := by simp [hp]
    refine hs.setHeld hlive (by simp [hp]) (live_afterCancel command)
      (acquires_afterCancel command) ?_ rfl rfl (hs.deferred_none hlive)
    simp only [Host.queue, hp, command_afterCancel, SessionPhase.command.eq_2]
  case h_2 l granted command hp =>
    have hlive : h.session.phase.Live := by simp [hp]
    have hl : l ∈ h.session.needed :=
      (hs.exclusion.statement l (by simp [hp])).1
    split
    · refine hs.moveLive hlive (live_afterCancel command) ?_ rfl (hs.deferred_none hlive) ?_ ?_
      · simp only [Host.queue, hp, command_afterCancel, SessionPhase.command.eq_2]
      · simp [-SessionPhase.acquires, acquires_afterCancel]
      · intro m hm
        have hm : m ∈ h.session.pending ∨ m = l := by
          dsimp only at hm
          split at hm <;> simp_all
        rcases hm with hm | rfl
        · exact .inl hm
        · exact .inr fun _ => hl
    · exact hs
  case h_3 => exact hs

lemma Sound.marking_setLost {rest : List ℕ} (hp : h.session.phase = .losing (l :: rest)) :
    Marking h.leases h.calls (update h.state l .lost) h.epoch (.counting l rest) := by
  intro m rest' hm
  simp only [SessionPhase.counting.injEq] at hm
  obtain ⟨rfl, -⟩ := hm
  have hdb := (hs.lifecycle.live l (hs.exclusion.covers l (by simp [hp]))).2.1
  refine ⟨by simp, fun i hi hrun m hm hkey hheld => ?_⟩
  have hne : m ≠ l := by
    rintro rfl
    simp at hheld
  rw [update_of_ne hne] at hheld
  have hst : h.state l = .held := by
    have := hs.epochs.effective i (by rw [hrun, hi])
    rw [hi] at this
    exact this.held (by simp [hp])
  exact hne (hs.exclusion.unique m l hm hdb hheld hst hkey)

lemma Sound.mark : Sound h.mark := by
  unfold Host.mark
  split
  case h_1 hp =>
    have he := hs.exclusion
    rw [hp] at he
    refine hs.setSession (by simp [hp]) (by simp) ?_ rfl ?_ (by simp) fun _ => trivial
    · simp [Host.queue, hp]
    · exact he.move (by simp) rfl he.held he.covers he.waiting
  case h_2 l rest hp =>
    have he := hs.exclusion
    rw [hp] at he
    have hqueue : h.queue = h.session.deferred.toList ++ h.channel := by
      simp [Host.queue, hp]
    split
    case isTrue hreleased =>
      refine hs.setSession (by simp [hp]) (by simp) hqueue.symm rfl ?_ (by simp) fun _ => trivial
      refine he.move (by simp) rfl (fun m hm hst => ?_)
        (fun m hm => he.covers m (mem_cons_of_mem _ hm)) he.waiting
      have hne : m ≠ l := by
        rintro rfl
        simp [hreleased] at hst
      exact (mem_cons.1 (he.held m hm hst)).resolve_left hne
    case isFalse hreleased =>
      refine hs.setNeeded (he.covers l mem_cons_self) (by simp) hqueue.symm rfl ?_ he.setLost
        (hs.marking_setLost hp) (by simp) fun _ => trivial
      refine { hs.epochs with effective := fun i hi => ?_ }
      have hst := (hs.epochs.effective i hi).held (by simp [hp])
      by_cases hne : (h.calls i).lease = l
      · exact .inr ⟨rest, by rw [hne]⟩
      · exact .inl (by rwa [update_of_ne hne])
  case h_3 l rest hp =>
    have he := hs.exclusion
    rw [hp] at he
    have hlt := (hs.lifecycle.live l (hs.exclusion.counting l rest hp)).1
    have hqueue : Host.queue { h with session := { h.session with phase := .losing rest } } =
        h.queue := by
      simp [Host.queue, hp]
    -- The calls of the lease fall behind.
    have hepoch (m : ℕ) : h.epoch m ≤ update h.epoch l (h.epoch l + 1) m := by
      grind [update_apply]
    refine { hs with
      fresh := fun m hm => ?_
      epochs := ⟨fun i e hi => Nat.le_trans (hs.epochs.le i e hi) (hepoch _), fun i hi => ?_⟩
      lifecycle := ?_, retirement := ?_
      exclusion := he.move (by simp) rfl he.held he.covers he.waiting
      marking := fun m rest' hm => by cases hm
      stopping := fun hstop => ?_
      deferred := fun _ => trivial }
    · have hne : m ≠ l := Nat.ne_of_gt (Nat.lt_of_lt_of_le hlt hm)
      simpa only [update_of_ne hne] using hs.fresh m hm
    · have hle := hs.epochs.le i _ (CallPhase.epoch?_of_running? hi)
      have hne : (h.calls i).lease ≠ l := by
        intro hl
        dsimp only at hle
        rw [hl, update_self] at hle
        omega
      dsimp only at hi ⊢
      rw [update_of_ne hne] at hi
      rcases hs.epochs.effective i hi with hst | ⟨rest', hcounting⟩
      · exact .inl hst
      · rw [hp] at hcounting
        simp only [SessionPhase.counting.injEq] at hcounting
        exact absurd hcounting.1.symm hne
    · exact hqueue ▸ hs.lifecycle
    · exact hqueue ▸ hs.retirement
    · exact hs.stopping (.inl (hqueue ▸ hstop.resolve_right (by simp)))
  case h_4 => exact hs

/-! ## Commands are handled -/

lemma Sound.announce
    (hqueue : h.queue = .acquire l :: Host.queue { h with channel, session := s })
    (hphase : Handles h.session.phase s.phase) (hneeded : s.needed = h.insertNeeded l)
    (hpending : ∀ m ∈ s.pending, m ∈ h.session.pending ∨ m = l)
    (hdeferred : s.deferred ≠ none → s.phase.Sessionless) :
    Sound { h with channel, session := s } := by
  have hl : .acquire l ∈ h.queue := by simp [hqueue]
  have hneeded : s.needed = l :: h.session.needed := by rw [hneeded, hs.insertNeeded hl]
  have htail {c : Command} (hc : c ∈ Host.queue { h with channel, session := s }) :
      c ∈ h.queue := by simp [hqueue, hc]
  have he := hs.exclusion
  refine { hs with
    epochs := { hs.epochs with effective := fun i hi => .inl <|
      (hs.epochs.effective i hi).held fun m rest => (hphase.not_counting m rest).1 }
    lifecycle := ?_
    retirement := { hs.retirement with release := fun m hm => hs.retirement.release m (htail hm) }
    exclusion := ?_
    marking := fun m rest hm => absurd hm (hphase.not_counting m rest).2
    stopping := fun hstop => hs.stopping (.inl (htail (hstop.resolve_right hphase.ne_ended)))
    deferred := hdeferred }
  · have hlife := hs.lifecycle
    rw [hqueue] at hlife
    exact hneeded ▸ hlife.acquireHead
  · refine he.move (fun m rest => (hphase.not_counting m rest).2) hphase.acquires
      (fun m hm hst => hphase.mem_covers (he.held m hm hst) ?_) (fun m => hphase.covers)
      fun m hm hactive => ?_
    · exact fun hmem => hneeded ▸ mem_cons_of_mem _ hmem
    · show m ∈ s.needed
      rw [hneeded]
      rcases hpending m hm with hm | rfl
      · exact mem_cons_of_mem _ (he.waiting m hm hactive)
      · exact mem_cons_self

lemma Sound.release (hqueue : h.queue = .release l :: Host.queue { h with channel, session := s })
    (hphase : Handles h.session.phase s.phase) (hneeded : s.needed = h.removeNeeded l)
    (hpending : ∀ m ∈ s.pending, m ∈ h.session.pending ∨ m ∈ s.needed)
    (hdeferred : s.deferred ≠ none → s.phase.Sessionless) :
    Sound { h.set l .released with channel, session := s } := by
  have hl : .release l ∈ h.queue := by simp [hqueue]
  obtain ⟨hlt, hdb, hst, -⟩ := hs.lifecycle.release l hl
  have hretired := hs.retirement.release l hl
  have hmem (m : ℕ) : m ∈ s.needed ↔ m ∈ h.session.needed ∧ m ≠ l := by
    rw [hneeded, hs.mem_removeNeeded hl]
  have htail {c : Command} (hc : c ∈ Host.queue { h with channel, session := s }) :
      c ∈ h.queue := by simp [hqueue, hc]
  have hstate {m : ℕ} (hm : update h.state l .released m = .held) :
      m ≠ l ∧ h.state m = .held := by
    grind [update_apply]
  have he := hs.exclusion
  refine { hs with
    fresh := fun m hm => ?_
    epochs := { hs.epochs with effective := fun i hi => .inl ?_ }
    lifecycle := ?_
    retirement := { hs.retirement with
      released := fun m hm => ?_, release := fun m hm => hs.retirement.release m (htail hm) }
    exclusion := ?_
    marking := fun m rest hm => absurd hm (hphase.not_counting m rest).2
    localExclusion := { hs.localExclusion with
      held := fun m hm hheld => hs.localExclusion.held m hm (hstate hheld).2 }
    stopping := fun hstop => ?_
    deferred := hdeferred }
  · have hne : m ≠ l := Nat.ne_of_gt (Nat.lt_of_lt_of_le hlt hm)
    simpa only [Host.set, update_of_ne hne] using hs.fresh m hm
  · have hne : (h.calls i).lease ≠ l := fun hl =>
      hretired.2 i hl (CallPhase.passed_of_running? hi)
    have hheld := (hs.epochs.effective i hi).held fun m rest => (hphase.not_counting m rest).1
    simpa only [Host.set, update_of_ne hne] using hheld
  · have hlife := hs.lifecycle
    rw [hqueue] at hlife
    refine hlife.releaseHead hmem ?_
    rw [hneeded]
    exact hs.lifecycle.neededNodup.filter _
  · by_cases hne : m = l
    · exact hne ▸ hretired
    · exact hs.retirement.released m (by simpa [Host.set, hne] using hm)
  · refine ⟨fun m hm hst => ?_, fun m hm => hphase.covers hm,
      fun m rest hm => absurd hm (hphase.not_counting m rest).2,
      fun m m' hm hm' hst hst' => he.unique m m' hm hm' (hstate hst).2 (hstate hst').2,
      fun m hm => ?_, fun m hm hactive => ?_⟩
    · obtain ⟨hne, hst⟩ := hstate hst
      exact hphase.mem_covers (he.held m hm hst) fun hm' => (hmem m).2 ⟨hm', hne⟩
    · rw [hphase.acquires] at hm
      cases hm
    · rcases hpending m hm with hm | hm
      · refine (hmem m).2 ⟨he.waiting m hm hactive, ?_⟩
        rintro rfl
        simp [Host.set, hretired.1] at hactive
      · exact hm
  · obtain ⟨h1, h2⟩ := hs.stopping (.inl (htail (hstop.resolve_right hphase.ne_ended)))
    refine ⟨h1, fun m hm hmdb => ?_⟩
    have := h2 m hm hmdb
    simp only [Host.set]
    grind [update_apply]

lemma Sound.stop (hqueue : h.queue = .stop :: Host.queue { h with channel, session := s })
    (hphase : h.session.phase = .down ∨ h.session.phase.Live) (hphase' : s.phase = .ended)
    (hneeded : s.needed = h.session.needed) (hpending : s.pending = h.session.pending)
    (hdeferred : s.deferred = none) : Sound { h with channel, session := s } := by
  have hstop := hs.stopping (.inl (by simp [hqueue]))
  have htail {c : Command} (hc : c ∈ Host.queue { h with channel, session := s }) :
      c ∈ h.queue := by simp [hqueue, hc]
  have hcounting (l : ℕ) (rest : List ℕ) : h.session.phase ≠ .counting l rest := by
    rcases hphase with hphase | hphase
    · simp [hphase]
    · exact hphase.not_counting l rest
  refine { hs with
    epochs := { hs.epochs with
      effective := fun i hi => .inl ((hs.epochs.effective i hi).held hcounting) }
    lifecycle := ?_
    retirement := { hs.retirement with release := fun m hm => hs.retirement.release m (htail hm) }
    exclusion := ?_
    marking := fun m rest hm => ?_
    stopping := fun _ => hstop
    deferred := fun hne => absurd hdeferred hne }
  · have hlife := hs.lifecycle
    rw [hqueue] at hlife
    exact hneeded ▸ hlife.tail
  · simp only [hphase', hneeded, hpending]
    refine hs.exclusion.move (by simp) rfl (fun m hm hst => ?_) (fun m hm => nomatch hm)
      hs.exclusion.waiting
    have hmem := hs.exclusion.covers m (hs.exclusion.held m hm hst)
    obtain ⟨hlt, hdb, hlive⟩ := hs.lifecycle.live m hmem
    exact absurd (hstop.2 m hlt hdb) hlive
  · rw [hphase'] at hm
    cases hm

lemma Sound.finishRelease (hp : h.session.phase.Live)
    (hcommand : h.session.phase.command = [.release l]) (order : List ℕ) :
    Sound (h.finishRelease l order) := by
  unfold Host.finishRelease
  split
  case isFalse => exact hs
  case isTrue hperm =>
    have hperm : order.Perm (h.removeNeeded l) := isPerm_iff.1 hperm
    refine hs.release ?_ (.inr ⟨hp, rfl⟩) rfl (fun m hm => ?_) fun hne =>
      absurd (hs.deferred_none hp) hne
    · rw [Host.queue, hcommand]
      rfl
    · rcases mem_append.1 hm with hm | hm
      · exact .inl hm
      · exact .inr (hperm.mem_iff.1 (mem_filter.1 hm).1)

lemma Sound.handle (order : List ℕ) : Sound (h.handle order) := by
  unfold Host.handle
  split
  case h_1 l hp =>
    have hlive : h.session.phase.Live := by simp [hp]
    refine hs.announce ?_ (.inr ⟨hlive, rfl⟩) rfl ?_ fun hne => absurd (hs.deferred_none hlive) hne
    · simp [Host.queue, hp]
    · simp
  case h_2 l hp =>
    have hlive : h.session.phase.Live := by simp [hp]
    split
    · refine hs.moveLive hlive trivial ?_ rfl (hs.deferred_none hlive) ?_ fun m hm => .inl hm
      · simp [Host.queue, hp]
      · simp
    · exact hs.finishRelease hlive (by simp [hp]) order
  case h_3 hp =>
    have hlive : h.session.phase.Live := by simp [hp]
    refine hs.stop ?_ (.inr hlive) rfl rfl rfl (hs.deferred_none hlive)
    simp [Host.queue, hp]
  case h_4 => exact hs

lemma Sound.unlocked (order : List ℕ) : Sound (h.unlocked order) := by
  unfold Host.unlocked
  split
  case h_1 l hp =>
    exact hs.finishRelease (by simp [hp]) (by simp [hp])
      order
  case h_2 => exact hs

lemma Sound.handleDown (hp : h.session.phase = .down) {c : Command}
    (hqueue : h.queue = c :: channel) :
    Sound
      (Host.handleDown { h with channel, session := { h.session with deferred := none } } c) := by
  cases c with
  | acquire l =>
    refine hs.announce (l := l) ?_ (.inl ⟨hp, hp⟩) rfl (fun m hm => .inl hm) (by simp)
    rw [hqueue]
    simp [Host.queue, hp]
  | release l =>
    refine hs.release (l := l) ?_ (.inl ⟨hp, hp⟩) rfl (fun m hm => .inl hm) (by simp)
    rw [hqueue]
    simp [Host.queue, Host.set, hp]
  | stop =>
    refine hs.stop ?_ (.inl hp) rfl rfl rfl rfl
    rw [hqueue]
    simp [Host.queue]

lemma Sound.receive : Sound h.receive := by
  unfold Host.receive
  split
  case h_2 => exact hs
  case h_1 c h' hc =>
    obtain ⟨channel, deferred, rfl, rfl, hqueue⟩ := Host.nextCommand_cases hc
    split
    case h_1 hp =>
      refine hs.handleDown hp ?_
      simpa [Host.queue, hp] using hqueue
    case h_2 hp =>
      have hlive : h.session.phase.Live := by simp [hp]
      split
      · refine hs.moveLive hlive trivial ?_ rfl rfl ?_ fun m hm => .inl hm
        · simpa [Host.queue, hp] using hqueue.symm
        · simp
      · exact hs
    case h_3 => exact hs

/-! ## Every step -/

lemma Sound.step (action : Action) : Sound (step h action) := by
  cases action with
  | enter i connection key isLocal => exact hs.enter i connection key isLocal
  | call i => exact hs.callStep i
  | drop i => exact hs.dropCall i
  | revoke connection => exact hs.revoke connection
  | retire l => exact hs.retire l
  | localStep l => exact hs.localStep l
  | localAbort l => exact hs.localAbort l
  | shutdown => exact { hs with stopping := fun hstop => ⟨rfl, (hs.stopping hstop).2⟩ }
  | stop =>
    simp only [ResourceLease.step]
    split
    case isTrue hgo =>
      have hqueue := Host.queue_append (h := h) .stop
      refine { hs with
        lifecycle := { hs.lifecycle with
          acquire := fun l hl =>
            hs.lifecycle.acquire l ((Host.mem_queue_append hl).resolve_right (by simp))
          release := fun l hl =>
            hs.lifecycle.release l ((Host.mem_queue_append hl).resolve_right (by simp))
          order := ?_ }
        retirement := { hs.retirement with
          release := fun l hl =>
            hs.retirement.release l ((Host.mem_queue_append hl).resolve_right (by simp)) }
        stopping := fun _ => hgo }
      rw [hqueue]
      refine pairwise_append.2
        ⟨hs.lifecycle.order, pairwise_singleton _ _, fun c _ c' hc' l => ?_⟩
      obtain rfl := mem_singleton.1 hc'
      exact ⟨fun _ => ⟨by simp, by simp⟩, fun _ => by simp⟩
    case isFalse => exact hs
  | connect order => exact hs.connect order
  | receive => exact hs.receive
  | handle order => exact hs.handle order
  | pop => exact hs.pop
  | acquired => exact hs.acquired
  | execute => exact hs.execute
  | die => exact hs.die
  | cancel forCommand => exact hs.cancel forCommand
  | cancelled acquired => exact hs.cancelled acquired
  | unlocked order => exact hs.unlocked order
  | lose order => exact hs.lose order
  | mark => exact hs.mark

lemma Sound.run (actions : List Action) : Sound (h.run actions) :=
  invariant_foldl (fun _ action hs => hs.step action) hs actions

end Steps

lemma Host.Reachable.sound (hreach : h.Reachable) : Sound h := by
  obtain ⟨actions, rfl⟩ := hreach
  exact Sound.start.run actions

end Wamn.ResourceLease
