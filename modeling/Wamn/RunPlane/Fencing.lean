import Wamn.RunPlane.Lifecycle

/-!
# Queue fencing

The generation of a queue row rises with every grant, and every executor mutation compares owner and
generation with the stored ones. Grants are recorded beside the plane.
-/

namespace Wamn.RunPlane

open Lib Lib.Json RunState Runtime

variable {J : Type} {pg : Postgres J}

/-! ## Planes with their grants -/

/-- A plane and every lease granted on it so far, newest first. -/
structure World (J : Type) where
  plane : Plane J
  grants : List Grant

namespace World

def empty : World J := ⟨.empty, []⟩

def step (pg : Postgres J) (w : World J) (a : Action J) : World J where
  plane := RunPlane.step pg w.plane a
  grants := (granted pg w.plane a).toList ++ w.grants

def latest (w : World J) (id : RunId) : Option Grant :=
  w.grants.find? (·.run = id)

/-- The world is reached from the empty one, whoever acts. -/
def Reachable (pg : Postgres J) (w : World J) : Prop :=
  Steps (World.step pg) (fun _ _ => True) .empty w

/-- The presented authority is the most recent grant of a run that has not ended. -/
structure Current (w : World J) (f : Fence) : Prop where
  latest : w.latest f.targetRunId = some ⟨f.targetRunId, f.leaseOwner, f.leaseGeneration⟩
  runnable : ∃ r, w.plane.run f.targetRunId = some r ∧ r.status.isTerminal = false

end World

/-! ## The history agrees with the rows -/

/-- The row has the generation of the most recent grant, and a holder is its owner. -/
structure RowFenced (id : RunId) (latest : Option Grant) (q : QueueRow) : Prop where
  generation : q.leaseGeneration = latest.elim 0 (·.generation)
  owner : ∀ owner, q.leaseOwner = some owner →
    latest = some ⟨id, owner, q.leaseGeneration⟩

structure Fenced (w : World J) : Prop where
  /-- Every queue row agrees with the most recent grant of its run. -/
  row : ∀ id q, w.plane.entry id = some q → RowFenced id (w.latest id) q
  /-- Only stored runs have been granted. -/
  stored : ∀ g ∈ w.grants, (w.plane.run g.run).isSome = true
  /-- The most recent grant of a run has its highest generation. -/
  highest : ∀ g ∈ w.grants, ∃ newest, w.latest g.run = some newest ∧
    g.generation ≤ newest.generation

variable {w : World J} {id : RunId} {a : Action J} {r r' : Option (Run J)} {q q' : Option QueueRow}
  {grant : Grant}

lemma Fenced.latest_eq_none (h : Fenced w) (hrun : w.plane.run id = none) :
    w.latest id = none := by
  refine List.find?_eq_none.2 fun g hg hid => ?_
  obtain rfl := of_decide_eq_true hid
  simpa [hrun] using h.stored g hg

/-- Row changes without a grant keep the queue row in agreement with the history. -/
theorem RowChange.rowFenced {latest : Option Grant} (h : RowChange pg id a none r q r' q')
    (hfresh : r = none → latest = none) (hold : ∀ row, q = some row → RowFenced id latest row) :
    ∀ row, q' = some row → RowFenced id latest row := by
  rintro row hrow
  cases h with
  | terminalized | completed | releaseExhausted | reaped => cases hrow
  | callerReleased | deadlinesReported => exact hold row hrow
  | admitted =>
    obtain rfl := Option.some.inj hrow
    -- A fresh row starts at generation zero, and a run that was not stored has no grant.
    rw [hfresh rfl]
    exact ⟨rfl, by simp [QueueRow.admitted]⟩
  | grantRefused _ _ _ _ _ q | renewed _ _ _ _ _ q | parked _ _ _ q | woken _ _ _ q =>
    obtain rfl := Option.some.inj hrow
    obtain ⟨hgeneration, howner⟩ := hold q rfl
    exact ⟨hgeneration, howner⟩
  | returned _ _ _ _ q =>
    obtain rfl := Option.some.inj hrow
    -- The generation stays when the lease is given back, so the next grant still rises.
    exact ⟨(hold q rfl).generation, by simp [QueueRow.returned]⟩

/-- A row change that grants a lease leases the row it found, one generation up. -/
theorem RowChange.granted_inv (h : RowChange pg id a (some grant) r q r' q') :
    ∃ row leased, q = some row ∧ q' = some leased ∧ r.isSome = true ∧
      grant = ⟨id, grant.owner, row.leaseGeneration + 1⟩ ∧
      leased.leaseOwner = some grant.owner ∧ leased.leaseGeneration = row.leaseGeneration + 1 := by
  cases h with
  | granted => exact ⟨_, _, rfl, rfl, rfl, rfl, rfl, rfl⟩

lemma RowChange.isSome_run {grant : Option Grant} (h : RowChange pg id a grant r q r' q')
    (hr : r.isSome = true) : r'.isSome = true := by
  cases h <;> first | rfl | exact hr

lemma isSome_run_step {p : Plane J} (a : Action J) (h : (p.run id).isSome = true) :
    ((step pg p a).run id).isSome = true := by
  obtain ⟨r, hr⟩ := Option.isSome_iff_exists.1 h
  obtain ⟨kept, hkept, -⟩ := run_step pg a (K := fun _ => True)
    (fun _ _ _ _ _ _ _ hrow => by
      obtain ⟨kept, rfl⟩ := Option.isSome_iff_exists.1 (hrow.isSome_run rfl)
      exact ⟨kept, rfl, trivial⟩) hr trivial
  simp [hkept]

lemma Fenced.step_of_none (h : Fenced w) (hgrant : granted pg w.plane a = none) :
    Fenced (w.step pg a) := by
  have hgrants : (w.step pg a).grants = w.grants := by simp [World.step, hgrant]
  have hlatest : ∀ id, (w.step pg a).latest id = w.latest id := by
    intro id; simp [World.latest, hgrants]
  refine ⟨fun id q hq => ?_, fun g hg => ?_, fun g hg => ?_⟩
  · rw [hlatest]
    rcases step_rowChange pg w.plane a with ⟨hsame, -⟩ | ⟨id', r', q', hrow, hrewrites⟩
    · exact h.row id q (by simpa [World.step, hsame] using hq)
    · have hentry : (RunPlane.step pg w.plane a).entry id = some q := hq
      rw [(hrewrites id).2] at hentry
      by_cases hne : id = id'
      · subst hne
        -- Without a grant the history is as it was, and the row change keeps the row in step.
        rw [hgrant] at hrow
        exact hrow.rowFenced h.latest_eq_none (h.row id) q (by simpa using hentry)
      · exact h.row id q (by simpa [hne] using hentry)
  · rw [hgrants] at hg
    exact isSome_run_step a (h.stored g hg)
  · rw [hgrants] at hg
    rw [hlatest]
    exact h.highest g hg

/-- A step that grants a lease raises the row one generation above the last grant, and leaves the
other rows. -/
theorem granted_spec {p : Plane J} (hgrant : granted pg p a = some grant) :
    ∃ row leased, p.entry grant.run = some row ∧
      (step pg p a).entry grant.run = some leased ∧ (p.run grant.run).isSome = true ∧
      grant.generation = row.leaseGeneration + 1 ∧ leased.leaseOwner = some grant.owner ∧
      leased.leaseGeneration = grant.generation ∧
      ∀ id, id ≠ grant.run → (step pg p a).entry id = p.entry id := by
  rcases step_rowChange pg p a with ⟨-, hnone⟩ | ⟨id, r', q', hrow, hrewrites⟩
  · rw [hgrant] at hnone; cases hnone
  · rw [hgrant] at hrow
    obtain ⟨row, leased, hq, rfl, hr, heq, howner, hgeneration⟩ := hrow.granted_inv
    have hid : grant.run = id := by rw [heq]
    have hnumber : grant.generation = row.leaseGeneration + 1 := by rw [heq]
    subst hid
    refine ⟨row, leased, hq, by simp [(hrewrites grant.run).2], hr, hnumber, howner,
      by rw [hgeneration, hnumber], fun id hne => by simp [(hrewrites id).2, hne]⟩

lemma Fenced.step_of_some (h : Fenced w) (hgrant : granted pg w.plane a = some grant) :
    Fenced (w.step pg a) := by
  obtain ⟨row, leased, hrow, hleased, hstored, hnumber, howner, hgeneration, hframe⟩ :=
    granted_spec hgrant
  have hgrants : (w.step pg a).grants = grant :: w.grants := by simp [World.step, hgrant]
  have hself : (w.step pg a).latest grant.run = some grant := by simp [World.latest, hgrants]
  have hother : ∀ id, id ≠ grant.run → (w.step pg a).latest id = w.latest id := by
    intro id hne
    simp [World.latest, hgrants, hne.symm]
  refine ⟨fun id q hq => ?_, fun g hg => ?_, fun g hg => ?_⟩
  · by_cases hne : id = grant.run
    · subst hne
      -- The leased row is the new grant itself.
      obtain rfl : leased = q := Option.mem_unique hleased hq
      rw [hself]
      refine ⟨hgeneration, fun owner howns => ?_⟩
      rw [howner] at howns
      rw [hgeneration, ← Option.some.inj howns]
    · rw [hother id hne]
      exact h.row id q ((hframe id hne).symm.trans hq)
  · rw [hgrants] at hg
    refine isSome_run_step a ?_
    rcases List.mem_cons.1 hg with rfl | hg
    · exact hstored
    · exact h.stored g hg
  · rw [hgrants] at hg
    rcases List.mem_cons.1 hg with rfl | hg
    · exact ⟨g, hself, le_rfl⟩
    · obtain ⟨newest, hnewest, hle⟩ := h.highest g hg
      by_cases hne : g.run = grant.run
      · -- The row's generation is the newest one's, and the grant is one above the row.
        refine ⟨grant, hne ▸ hself, ?_⟩
        have hrowGeneration := (h.row grant.run row hrow).generation
        rw [← hne, hnewest] at hrowGeneration
        simp only [Option.elim_some] at hrowGeneration
        omega
      · exact ⟨newest, (hother g.run hne).trans hnewest, hle⟩

lemma fenced_of_reachable (hw : w.Reachable pg) : Fenced w := by
  refine Steps.invariant (I := Fenced) (fun s a hs _ => ?_) hw
    ⟨by simp [World.empty], by simp [World.empty], by simp [World.empty]⟩
  cases hgrant : granted pg s.plane a with
  | none => exact hs.step_of_none hgrant
  | some grant => exact hs.step_of_some hgrant

/-! ## What an action needs in order to change anything -/

/-- A row change of an action that presents an authority is about the run it presents, and found its
queue row under it. -/
theorem RowChange.held_of_fence {grant : Option Grant} {f : Fence}
    (h : RowChange pg id a grant r q r' q') (hf : a.fence = some f) :
    f.targetRunId = id ∧ ∃ row, q = some row ∧ row.leaseOwner = some f.leaseOwner ∧
      row.leaseGeneration = f.leaseGeneration := by
  cases h with
  | admitted | grantRefused | granted | reaped | parked | woken => cases hf
  | renewed _ _ _ _ _ q _ live | returned _ _ _ _ q _ _ live
  | releaseExhausted _ _ _ _ q _ _ _ live =>
    obtain rfl := Option.some.inj hf
    obtain ⟨howner, hgeneration, -⟩ := QueueRow.liveUnder_iff.1 live
    exact ⟨rfl, q, rfl, howner, hgeneration⟩
  | callerReleased _ _ _ q _ target ready | terminalized _ _ _ q _ target ready =>
    obtain rfl := Option.some.inj hf
    exact ⟨target, q, rfl, ready.2⟩
  | deadlinesReported _ _ _ _ q _ ready | completed _ _ _ _ _ _ q _ ready =>
    obtain rfl := Option.some.inj hf
    exact ⟨rfl, q, rfl, ready.2⟩

lemma World.Reachable.plane (hw : w.Reachable pg) : RunPlane.Reachable pg w.plane := by
  refine Steps.invariant (I := fun s : World J => RunPlane.Reachable pg s.plane)
    (fun s a hs _ => ?_) hw (Steps.refl _)
  exact Steps.tail hs (a := a) trivial

/-- Queue fencing, for any executors, interleaving and clocks. Every grant is above all earlier ones
of its run and raises the generation of its queue row. An action that presents an owner and a
generation leaves the whole plane as it was, unless they are the most recent grant of the run and
the run has not ended. -/
theorem grants_increase_and_fence (pg : Postgres J) {w : World J} (hw : w.Reachable pg)
    (a : Action J) :
    (∀ grant, granted pg w.plane a = some grant →
      (∀ earlier ∈ w.grants, earlier.run = grant.run → earlier.generation < grant.generation) ∧
      ∃ q q', w.plane.entry grant.run = some q ∧
        (w.step pg a).plane.entry grant.run = some q' ∧
        q.leaseGeneration < q'.leaseGeneration ∧ q'.leaseGeneration = grant.generation) ∧
    ∀ f, a.fence = some f → ¬w.Current f → (w.step pg a).plane = w.plane := by
  have hfenced := fenced_of_reachable hw
  constructor
  · intro grant hgrant
    obtain ⟨row, leased, hrow, hleased, -, hnumber, -, hgeneration, -⟩ := granted_spec hgrant
    refine ⟨fun earlier hearlier hrun => ?_, row, leased, hrow, hleased, by omega, hgeneration⟩
    -- The row holds the highest generation so far, and the grant is one above the row.
    obtain ⟨newest, hnewest, hle⟩ := hfenced.highest earlier hearlier
    have hrowGeneration := (hfenced.row grant.run row hrow).generation
    rw [← hrun, hnewest] at hrowGeneration
    simp only [Option.elim_some] at hrowGeneration
    omega
  · intro f hf hstale
    rcases step_rowChange pg w.plane a with ⟨hsame, -⟩ | ⟨id, r', q', hchange, -⟩
    · exact hsame
    · -- A change would have found the queue row under the authority, which makes it the latest.
      exfalso
      obtain ⟨rfl, row, hrow, howner, hgeneration⟩ := hchange.held_of_fence hf
      have hlatest := (hfenced.row f.targetRunId row hrow).owner f.leaseOwner howner
      rw [hgeneration] at hlatest
      exact hstale ⟨hlatest,
        (queuedUntilEnd_of_reachable hw.plane f.targetRunId).1 (by simp [hrow])⟩

namespace Sample

/-- The run of host `a`, taken over by host `b` once the lease has expired. -/
def takenOver : World Value :=
  (claimed ++ [Action.claimNext (host "b") scope 30 (turn 100000)]).foldl
    (World.step .identity) .empty

/-- After the takeover the late completion of the first holder changes nothing. -/
theorem late_completion_changes_nothing :
    takenOver.grants = [⟨"r1", "b", 2⟩, ⟨"r1", "a", 1⟩] ∧
      (takenOver.step .identity (.complete (host "a") "r1" 1 (.completed .null none)
        (turn 100001))).plane = takenOver.plane := by
  have hreachable : takenOver.Reachable .identity := Steps.foldl _ _ fun _ _ _ => trivial
  refine ⟨by decide, ?_⟩
  refine (grants_increase_and_fence .identity hreachable _).2 ((host "a").fence "r1" 1) rfl ?_
  exact fun hcurrent => absurd hcurrent.latest (by decide)

end Sample

end Wamn.RunPlane
