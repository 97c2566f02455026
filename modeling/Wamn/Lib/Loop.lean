import Mathlib.Data.Nat.Notation
import Mathlib.Logic.Relation
import Wamn.Lib.Transaction

/-!
# Loops that return

The body of a loop goes on with a new state or returns a result, and it may fail. A loop need not
end, so it is run with fuel. `Iterates` are the states it passes through, without fuel;
`loop_eq_some` is the rule of partial correctness and `loop_returns` that of total correctness.
-/

namespace Wamn.Lib

universe u

variable {ε σ ρ : Type u}

/-- Run the body until it returns, for at most `fuel` iterations. -/
def loop (body : σ → Except ε (σ ⊕ ρ)) : ℕ → σ → Except ε (Option ρ)
  | 0, _ => pure none
  | fuel + 1, s => do
    match ← body s with
    | .inl s' => loop body fuel s'
    | .inr r => pure (some r)

/-- The loop comes from one state to another by iterations that go on. -/
def Iterates (body : σ → Except ε (σ ⊕ ρ)) : σ → σ → Prop :=
  Relation.ReflTransGen fun s s' => body s = .ok (.inl s')

variable {body : σ → Except ε (σ ⊕ ρ)} {s s' : σ} {r : ρ}

lemma loop_succ_of_inl {fuel : ℕ} (h : body s = .ok (.inl s')) :
    loop body (fuel + 1) s = loop body fuel s' := by
  rw [loop, h]
  rfl

lemma loop_succ_of_inr {fuel : ℕ} (h : body s = .ok (.inr r)) :
    loop body (fuel + 1) s = .ok (some r) := by
  rw [loop, h]
  rfl

lemma Iterates.invariant {I : σ → Prop} (hstep : ∀ s s', I s → body s = .ok (.inl s') → I s')
    (h : Iterates body s s') (hs : I s) : I s' := by
  induction h with
  | refl => exact hs
  | tail _ hbody ih => exact hstep _ _ ih hbody

/-- What a loop returns its body returns, in a state that the loop passes through. -/
theorem loop_eq_some {fuel : ℕ} (h : loop body fuel s = .ok (some r)) :
    ∃ s', Iterates body s s' ∧ body s' = .ok (.inr r) := by
  induction fuel generalizing s with
  | zero => cases h
  | succ fuel ih =>
    obtain ⟨next, hnext, h⟩ := bind_eq_ok.1 h
    cases next with
    | inl s₁ =>
      obtain ⟨s', hiterates, hbody⟩ := ih h
      exact ⟨s', Relation.ReflTransGen.head hnext hiterates, hbody⟩
    | inr r' =>
      obtain rfl := Option.some_inj.1 (pure_eq_ok.1 h)
      exact ⟨s, Relation.ReflTransGen.refl, hnext⟩

/-- A loop whose body keeps an invariant and decreases a measure whenever it goes on returns, with
any fuel above the measure. -/
theorem loop_returns {I : σ → Prop} {Q : ρ → Prop} (measure : σ → ℕ)
    (hbody : ∀ s, I s → (∃ s', body s = .ok (.inl s') ∧ I s' ∧ measure s' < measure s) ∨
      ∃ r, body s = .ok (.inr r) ∧ Q r)
    (hs : I s) : ∃ r, Q r ∧ ∀ fuel, measure s < fuel → loop body fuel s = .ok (some r) := by
  induction hn : measure s using Nat.strongRecOn generalizing s with
  | ind n ih =>
    subst hn
    rcases hbody s hs with ⟨s', hgo, hs', hless⟩ | ⟨r, hreturn, hr⟩
    · obtain ⟨r, hr, hloop⟩ := ih (measure s') hless hs' rfl
      refine ⟨r, hr, fun fuel hfuel => ?_⟩
      obtain ⟨fuel, rfl⟩ : ∃ rest, fuel = rest + 1 := ⟨fuel - 1, by omega⟩
      rw [loop_succ_of_inl hgo]
      exact hloop fuel (by omega)
    · refine ⟨r, hr, fun fuel hfuel => ?_⟩
      obtain ⟨fuel, rfl⟩ : ∃ rest, fuel = rest + 1 := ⟨fuel - 1, by omega⟩
      exact loop_succ_of_inr hreturn

end Wamn.Lib
