import Mathlib.Logic.Relation

/-!
# Machines and their runs

A machine is a function `step : σ → α → σ` on its states. A label `a : α` carries everything the
environment decides about one step (who acts, what the clocks read, which statement fails), so a run
is a sequence of labels, and so is every interleaving of several actors.

`Steps step ok s t` says that `t` is reached from `s` by steps whose labels satisfy `ok` in the
state they are taken from. The rules below package the inductions over runs.
-/

namespace Wamn.Lib

variable {σ α : Type*}

/-- One step of the machine, under an admitted label. -/
def Next (step : σ → α → σ) (ok : σ → α → Prop) (s t : σ) : Prop :=
  ∃ a, ok s a ∧ step s a = t

/-- The machine reaches `t` from `s` by finitely many admitted steps. -/
def Steps (step : σ → α → σ) (ok : σ → α → Prop) : σ → σ → Prop :=
  Relation.ReflTransGen (Next step ok)

/-- Every label of a sequence is admitted in the state it is taken from. -/
def Admitted (step : σ → α → σ) (ok : σ → α → Prop) : σ → List α → Prop
  | _, [] => True
  | s, a :: as => ok s a ∧ Admitted step ok (step s a) as

namespace Steps

variable {step : σ → α → σ} {ok : σ → α → Prop} {s t u : σ}

lemma refl (s : σ) : Steps step ok s s :=
  Relation.ReflTransGen.refl

lemma tail (h : Steps step ok s t) {a : α} (ha : ok t a) : Steps step ok s (step t a) :=
  Relation.ReflTransGen.tail h ⟨a, ha, rfl⟩

lemma trans (h : Steps step ok s t) (h' : Steps step ok t u) : Steps step ok s u :=
  Relation.ReflTransGen.trans h h'

lemma foldl (s : σ) (as : List α) (h : ∀ s a, a ∈ as → ok s a) :
    Steps step ok s (as.foldl step s) := by
  induction as generalizing s with
  | nil => exact refl s
  | cons a as ih =>
    have hhead : Steps step ok s (step s a) := (refl s).tail (h s a (by simp))
    exact hhead.trans (ih (step s a) fun s' b hb => h s' b (by simp [hb]))

lemma of_admitted {as : List α} (h : Admitted step ok s as) :
    Steps step ok s (as.foldl step s) := by
  induction as generalizing s with
  | nil => exact refl s
  | cons a as ih => exact ((refl s).tail h.1).trans (ih h.2)

/-- What every admitted step keeps holds along the run. -/
theorem invariant {I : σ → Prop} (hstep : ∀ s a, I s → ok s a → I (step s a))
    (h : Steps step ok s t) (hs : I s) : I t := by
  induction h with
  | refl => exact hs
  | tail _ hnext ih =>
    obtain ⟨a, ha, rfl⟩ := hnext
    exact hstep _ a ih ha

/-- A preorder that every step respects relates the two ends of the run. -/
theorem related {R : σ → σ → Prop} (hrefl : ∀ s, R s s)
    (htrans : ∀ s t u, R s t → R t u → R s u) (hstep : ∀ s a, ok s a → R s (step s a))
    (h : Steps step ok s t) : R s t := by
  induction h with
  | refl => exact hrefl s
  | tail _ hnext ih =>
    obtain ⟨a, ha, rfl⟩ := hnext
    exact htrans _ _ _ ih (hstep _ a ha)

end Steps

/-- The same for a machine that admits every label. -/
theorem invariant_foldl {I : σ → Prop} (hstep : ∀ s a, I s → I (step s a)) {s : σ} (hs : I s)
    (as : List α) : I (as.foldl step s) := by
  have hsteps : Steps step (fun _ _ => True) s (as.foldl step s) :=
    Steps.foldl s as fun _ _ _ => trivial
  exact hsteps.invariant (fun s a h _ => hstep s a h) hs

/-- What a run brings about, some step of it did. -/
theorem exists_step_of_foldl {P : σ → Prop} {s : σ} {as : List α} (hs : ¬ P s)
    (h : P (as.foldl step s)) :
    ∃ before a after, as = before ++ a :: after ∧ ¬ P (before.foldl step s) ∧
      P (step (before.foldl step s) a) := by
  induction as generalizing s with
  | nil => exact absurd h hs
  | cons a as ih =>
    by_cases hstep : P (step s a)
    · exact ⟨[], a, as, rfl, hs, hstep⟩
    · obtain ⟨before, a', after, rfl, hbefore, hafter⟩ := ih hstep h
      exact ⟨a :: before, a', after, rfl, hbefore, hafter⟩

/-- What no step regains holds at the end of a run exactly if it holds at its start and every step
keeps it. `I` is an invariant that tells when a step does. -/
theorem foldl_iff {I P : σ → Prop} {C : σ → α → Prop} (hinvariant : ∀ s a, I s → I (step s a))
    (hback : ∀ s a, I s → P (step s a) → P s) (hstep : ∀ s a, I s → P s → (P (step s a) ↔ C s a))
    {s : σ} (hs : I s) (as : List α) : P (as.foldl step s) ↔
      P s ∧ ∀ before a after, as = before ++ a :: after → C (before.foldl step s) a := by
  induction as generalizing s with
  | nil => simp
  | cons a as ih =>
    rw [List.foldl_cons, ih (hinvariant s a hs)]
    constructor
    · rintro ⟨hnext, hrest⟩
      have hhere := hback s a hs hnext
      refine ⟨hhere, fun before a' after heq => ?_⟩
      cases before with
      | nil =>
        obtain ⟨rfl, -⟩ := List.cons.inj heq
        exact (hstep s a hs hhere).1 hnext
      | cons b before =>
        obtain ⟨rfl, htail⟩ := List.cons.inj heq
        exact hrest before a' after htail
    · rintro ⟨hhere, hall⟩
      refine ⟨(hstep s a hs hhere).2 (hall [] a as rfl), fun before a' after heq => ?_⟩
      exact hall (a :: before) a' after (by rw [heq, List.cons_append])

end Wamn.Lib
