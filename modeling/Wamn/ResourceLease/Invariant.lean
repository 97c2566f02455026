import Wamn.ResourceLease.Host

/-!
# What holds of the leases of a host after every step

Each part of the invariant takes only the components of the host that it speaks about, so that a
step keeps it whenever it leaves these alone.

* `Mutexes`: a call past the call mutex is its owner.
* `Epochs`: a call with the epoch of its lease has the lease held.
* `Lifecycle`: a database lease is announced, needed, released and forgotten in this order.
* `Retirement`: a lease is released only once it is revoked and no call is past the check.
* `Exclusion`: at most one database lease of a key is held, and the session task knows it.
* `Marking`: a lease is marked as lost before another of its key can be held.
* `LocalExclusion`: a held local lease has the mutex of its key.
-/

namespace Wamn.ResourceLease

open Function

/-! ## Calls -/

namespace CallPhase

@[simp]
def Holds : CallPhase → Prop
  | .ended | .entered | .locking => False
  | _ => True

/-- The call has the call mutex and has seen the lease active. -/
@[simp]
def Passed : CallPhase → Prop
  | .checked _ | .running _ | .asking _ => True
  | _ => False

@[simp]
def epoch? : CallPhase → Option ℕ
  | .loaded e | .checked e | .running e | .asking e => some e
  | _ => none

/-- The epoch of the `Call` in progress. -/
@[simp]
def running? : CallPhase → Option ℕ
  | .running e | .asking e => some e
  | _ => none

variable {p : CallPhase}

lemma Passed.holds (hp : p.Passed) : p.Holds := by
  cases p <;> simp_all [Passed, Holds]

lemma passed_of_running? {e : ℕ} (hp : p.running? = some e) : p.Passed := by
  cases p <;> simp_all [Passed, running?]

lemma epoch?_of_running? {e : ℕ} (hp : p.running? = some e) : p.epoch? = some e := by
  cases p <;> simp_all [epoch?, running?]

end CallPhase

/-- The owner of a call mutex is the call that is past it. -/
structure Mutexes (count : ℕ) (calls : ℕ → Call) (owner : ℕ → Option ℕ) : Prop where
  owner : ∀ l i, owner l = some i ↔ (calls i).lease = l ∧ (calls i).phase.Holds
  known : ∀ i, (calls i).phase ≠ .ended → (calls i).lease < count

/-- The lease is held, or marked as lost with its epoch yet to be counted up. -/
def Effective (state : ℕ → LeaseState) (phase : SessionPhase) (l : ℕ) : Prop :=
  state l = .held ∨ ∃ rest, phase = .counting l rest

/-- The epoch of a call is not ahead of its lease, and behind once the lease is lost. -/
structure Epochs (calls : ℕ → Call) (state : ℕ → LeaseState) (epoch : ℕ → ℕ)
    (phase : SessionPhase) : Prop where
  le : ∀ i e, (calls i).phase.epoch? = some e → e ≤ epoch (calls i).lease
  effective : ∀ i, (calls i).phase.running? = some (epoch (calls i).lease) →
    Effective state phase (calls i).lease

/-- The lease is revoked, and no call is past the check of it. -/
def Retired (active : ℕ → Bool) (calls : ℕ → Call) (l : ℕ) : Prop :=
  active l = false ∧ ∀ i, (calls i).lease = l → ¬ (calls i).phase.Passed

/-! ## Commands -/

/-- A lease is announced once and released once, and not announced after its release. -/
def Command.Before (c c' : Command) : Prop :=
  ∀ l, (c = .release l → c' ≠ .release l ∧ c' ≠ .acquire l) ∧ (c = .acquire l → c' ≠ .acquire l)

/-- The command that the session task has taken and not yet handled. -/
@[simp]
def SessionPhase.command : SessionPhase → List Command
  | .received c => [c]
  | .cancelling _ _ c => c.toList
  | .unlocking l _ => [.release l]
  | _ => []

/-- The commands that are not yet handled, in their order. -/
def Host.queue (h : Host) : List Command :=
  h.session.phase.command ++ (h.session.deferred.toList ++ h.channel)

/-- The stages of a database lease. -/
structure Lifecycle (leases : ℕ → Lease) (count : ℕ) (map : String → Option ℕ)
    (state : ℕ → LeaseState) (queue : List Command) (needed revokers : List ℕ) : Prop where
  known : ∀ c l, map c = some l → l < count ∧ (leases l).connection = c
  current : ∀ l < count, (leases l).isLocal = false → state l ≠ .released →
    map (leases l).connection = some l
  acquire : ∀ l, .acquire l ∈ queue →
    l < count ∧ (leases l).isLocal = false ∧ l ∉ needed ∧ state l = .pending
  release : ∀ l, .release l ∈ queue →
    l < count ∧ (leases l).isLocal = false ∧ state l ≠ .released ∧ l ∉ revokers
  live : ∀ l ∈ needed, l < count ∧ (leases l).isLocal = false ∧ state l ≠ .released
  revoker : ∀ l ∈ revokers, l < count ∧ ((leases l).isLocal = false → state l ≠ .released)
  order : queue.Pairwise Command.Before
  neededNodup : needed.Nodup
  revokersNodup : revokers.Nodup

@[simp]
def LocalTask.Left : LocalTask → Prop
  | .leaving _ | .releasing => True
  | _ => False

/-- Who releases a lease has found it retired. -/
structure Retirement (active : ℕ → Bool) (calls : ℕ → Call) (state : ℕ → LeaseState)
    (queue : List Command) (revokers : List ℕ) (locals : ℕ → LocalTask) : Prop where
  released : ∀ l, state l = .released → Retired active calls l
  release : ∀ l, .release l ∈ queue → Retired active calls l
  revoker : ∀ l ∈ revokers, active l = false
  left : ∀ l, (locals l).Left → Retired active calls l

/-! ## Exclusion -/

namespace SessionPhase

/-- The database leases that may be held. -/
@[simp]
def covers (needed : List ℕ) : SessionPhase → List ℕ
  | .losing rest | .counting _ rest => rest
  | .down | .ended => []
  | _ => needed

@[simp]
def acquires : SessionPhase → Option ℕ
  | .acquiring l _ | .cancelling l _ _ => some l
  | _ => none

@[simp]
def Sessionless : SessionPhase → Prop
  | .down | .losing _ | .counting _ _ => True
  | _ => False

end SessionPhase

variable (leases : ℕ → Lease) (count : ℕ)

/-- At most one database lease of a key is held. -/
structure Exclusion (active : ℕ → Bool) (state : ℕ → LeaseState)
    (phase : SessionPhase) (needed pending : List ℕ) : Prop where
  held : ∀ l, (leases l).isLocal = false → state l = .held → l ∈ phase.covers needed
  covers : ∀ l ∈ phase.covers needed, l ∈ needed
  counting : ∀ l rest, phase = .counting l rest → l ∈ needed
  unique : ∀ l m, (leases l).isLocal = false → (leases m).isLocal = false →
    state l = .held → state m = .held → (leases l).key = (leases m).key → l = m
  statement : ∀ l, phase.acquires = some l → l ∈ needed ∧ ∀ m, (leases m).isLocal = false →
    state m = .held → (leases m).key = (leases l).key → m = l
  waiting : ∀ l ∈ pending, active l = true → l ∈ needed

/-- While a lease that was held is marked as lost, no other one of its key is held. -/
def Marking (calls : ℕ → Call) (state : ℕ → LeaseState) (epoch : ℕ → ℕ)
    (phase : SessionPhase) : Prop :=
  ∀ l rest, phase = .counting l rest → state l = .lost ∧
    ∀ i, (calls i).lease = l → (calls i).phase.running? = some (epoch l) →
      ∀ m, (leases m).isLocal = false → (leases m).key = (leases l).key → state m ≠ .held

@[simp]
def LocalTask.guard? : LocalTask → Option ℕ
  | .locked m | .checked m | .holding m | .leaving m => some m
  | _ => none

/-- A local lease is held only by the one that has the mutex of its key. -/
structure LocalExclusion (state : ℕ → LeaseState)
    (locals : ℕ → LocalTask) (localMap : String → Option ℕ) (mutexes : ℕ)
    (guards : ℕ → Option ℕ) : Prop where
  known : ∀ l, locals l ≠ .absent → l < count ∧ (leases l).isLocal = true
  guard : ∀ l m, guards m = some l ↔ (locals l).guard? = some m
  mutex : ∀ l m, (locals l).mutex? = some m →
    localMap (leases l).key = some m ∧ m < mutexes
  held : ∀ l, (leases l).isLocal = true → state l = .held →
    (∃ m, locals l = .holding m) ∨ (locals l).Left

/-- Once the session task is told to stop, there are no leases left for it. -/
def Stopping (state : ℕ → LeaseState) (stopped : Bool)
    (queue : List Command) (phase : SessionPhase) : Prop :=
  .stop ∈ queue ∨ phase = .ended →
    stopped = true ∧ ∀ l < count, (leases l).isLocal = false → state l = .released

/-- A lease that does not exist yet is as it will be made. -/
def Fresh (active : ℕ → Bool) (state : ℕ → LeaseState) (epoch : ℕ → ℕ)
    (owner : ℕ → Option ℕ) : Prop :=
  ∀ l, count ≤ l → active l = true ∧ state l = .pending ∧ epoch l = 0 ∧ owner l = none

structure Sound (h : Host) : Prop where
  fresh : Fresh h.count h.active h.state h.epoch h.owner
  mutexes : Mutexes h.count h.calls h.owner
  epochs : Epochs h.calls h.state h.epoch h.session.phase
  lifecycle : Lifecycle h.leases h.count h.map h.state h.queue h.session.needed h.revokers
  retirement : Retirement h.active h.calls h.state h.queue h.revokers h.locals
  exclusion : Exclusion h.leases h.active h.state h.session.phase h.session.needed
    h.session.pending
  marking : Marking h.leases h.calls h.state h.epoch h.session.phase
  localExclusion : LocalExclusion h.leases h.count h.state h.locals h.localMap h.mutexes h.guards
  stopping : Stopping h.leases h.count h.state h.stopped h.queue h.session.phase
  deferred : h.session.deferred ≠ none → h.session.phase.Sessionless

lemma Sound.start : Sound Host.start where
  fresh := by simp [Fresh, Host.start]
  mutexes := ⟨by simp [Host.start], by simp [Host.start]⟩
  epochs := ⟨by simp [Host.start], by simp [Host.start]⟩
  lifecycle := by
    constructor <;> simp [Host.start, Host.queue]
  retirement := by
    constructor <;> simp [Host.start, Host.queue]
  exclusion := by
    constructor <;> simp [Host.start]
  marking := by simp [Marking, Host.start]
  localExclusion := by
    constructor <;> simp [Host.start]
  stopping := by simp [Stopping, Host.start, Host.queue]
  deferred := by simp [Host.start]

/-! ## One more lease

A new lease is none of those that the invariant speaks about. -/

section NewLease

variable {leases : ℕ → Lease} {count : ℕ} {map : String → Option ℕ} {active : ℕ → Bool}
  {state : ℕ → LeaseState} {epoch : ℕ → ℕ} {owner : ℕ → Option ℕ} {calls : ℕ → Call}
  {queue : List Command} {revokers needed pending : List ℕ} {locals : ℕ → LocalTask}
  {localMap : String → Option ℕ} {mutexes : ℕ} {guards : ℕ → Option ℕ} {phase : SessionPhase}

section

variable (h : Lifecycle leases count map state queue needed revokers)

include h

lemma Lifecycle.lt_of_command {c : Command} {l : ℕ} (hc : c ∈ queue)
    (hl : c = .acquire l ∨ c = .release l) : l < count := by
  rcases hl with rfl | rfl
  · exact (h.acquire l hc).1
  · exact (h.release l hc).1

lemma Lifecycle.pairwise_acquire :
    (queue ++ [Command.acquire count]).Pairwise Command.Before := by
  refine List.pairwise_append.2 ⟨h.order, List.pairwise_singleton _ _, fun c hc c' hc' l => ?_⟩
  obtain rfl := List.mem_singleton.1 hc'
  have hne (hcl : c = .acquire l ∨ c = .release l) : count ≠ l := by
    have := h.lt_of_command hc hcl
    omega
  exact ⟨fun hcl => ⟨by simp, by simpa using hne (.inr hcl)⟩,
    fun hcl => by simpa using hne (.inl hcl)⟩

lemma Lifecycle.newLease {queue' : List Command} (lease : Lease) (hfresh : state count = .pending)
    (hmap : ∀ l, map lease.connection = some l → state l = .released)
    (hqueue : lease.isLocal = true ∧ queue' = queue ∨
      lease.isLocal = false ∧ queue' = queue ++ [.acquire count]) :
    Lifecycle (update leases count lease) (count + 1)
      (update map lease.connection (some count)) state queue' needed revokers where
  known c l hl := by
    have := h.known c l
    grind [update_apply]
  current l hl hdb hstate := by
    have := h.current l
    have := h.known (leases l).connection l
    grind [update_apply]
  acquire l hl := by
    have hmem : .acquire l ∈ queue ∨ l = count ∧ lease.isLocal = false := by grind
    have := h.acquire l
    have := h.live l
    grind [update_apply]
  release l hl := by
    have hmem : .release l ∈ queue := by grind
    have := h.release l hmem
    grind [update_apply]
  live l hl := by
    have := h.live l hl
    grind [update_apply]
  revoker l hl := by
    have := h.revoker l hl
    grind [update_apply]
  order := by
    rcases hqueue with ⟨-, rfl⟩ | ⟨-, rfl⟩
    · exact h.order
    · exact h.pairwise_acquire
  neededNodup := h.neededNodup
  revokersNodup := h.revokersNodup

end

variable {lease : Lease}

lemma Exclusion.newLease (h : Exclusion leases active state phase needed pending)
    (hfresh : state count = .pending) (hneeded : count ∉ needed) :
    Exclusion (update leases count lease) active state phase needed pending := by
  have hheld {l : ℕ} (hl : state l = .held) : l ≠ count := by
    rintro rfl
    simp [hfresh] at hl
  constructor
  · intro l hdb hl
    rw [update_of_ne (hheld hl)] at hdb
    exact h.held l hdb hl
  · exact h.covers
  · exact h.counting
  · intro l m hl hm hel hem hkey
    rw [update_of_ne (hheld hel)] at hl hkey
    rw [update_of_ne (hheld hem)] at hm hkey
    exact h.unique l m hl hm hel hem hkey
  · intro l hl
    obtain ⟨hmem, hother⟩ := h.statement l hl
    have hne : l ≠ count := by
      rintro rfl
      exact hneeded hmem
    refine ⟨hmem, fun m hm hheldm hkey => hother m ?_ hheldm ?_⟩
    · rwa [update_of_ne (hheld hheldm)] at hm
    · rwa [update_of_ne (hheld hheldm), update_of_ne hne] at hkey
  · exact h.waiting

lemma Marking.newLease (h : Marking leases calls state epoch phase)
    (hfresh : state count = .pending) :
    Marking (update leases count lease) calls state epoch phase := by
  intro l rest hl
  obtain ⟨hlost, hother⟩ := h l rest hl
  refine ⟨hlost, fun i hi hrunning m hm hkey hheld => ?_⟩
  have hne : m ≠ count := by
    rintro rfl
    simp [hfresh] at hheld
  have hne' : l ≠ count := by
    rintro rfl
    simp [hfresh] at hlost
  rw [update_of_ne hne] at hm
  rw [update_of_ne hne, update_of_ne hne'] at hkey
  exact hother i hi hrunning m hm hkey hheld

variable (h : LocalExclusion leases count state locals localMap mutexes guards)

include h

lemma LocalExclusion.absent : locals count = .absent := by
  by_contra hne
  exact Nat.lt_irrefl _ (h.known count hne).1

lemma LocalExclusion.newLocal (hfresh : state count = .pending) (hlocal : lease.isLocal = true) :
    LocalExclusion (update leases count lease) (count + 1) state
      (update locals count .spawned) localMap mutexes guards where
  known l hl := by
    have := h.known l
    grind [update_apply]
  guard l m := by
    have := h.guard l m
    grind [update_apply, LocalTask.guard?, h.absent]
  mutex l m hl := by
    have := h.mutex l m
    grind [update_apply, LocalTask.mutex?]
  held l hl hheld := by
    have := h.held l
    grind [update_apply]

lemma LocalExclusion.newDatabase (hlocal : lease.isLocal = false) :
    LocalExclusion (update leases count lease) (count + 1) state locals localMap mutexes
      guards where
  known l hl := by
    have := h.known l hl
    grind [update_apply]
  guard := h.guard
  mutex l m hl := by
    have := h.mutex l m hl
    have := h.absent
    grind [update_apply, LocalTask.mutex?]
  held l hl hheld := by
    have := h.held l
    grind [update_apply]

end NewLease

end Wamn.ResourceLease
