import Mathlib.Data.List.Forall2
import Mathlib.Logic.Basic

/-!
# Transactions that commit or roll back

A transaction over a store `σ` is a function `σ → Except ε (β × σ)`: the answer and the new store
when it commits, the error when it rolls back. `commit` is what the store holds afterwards. The
inversion lemmas take a committed computation apart one statement at a time.
-/

namespace Wamn.Lib

open List

universe u v

variable {ε ε' σ : Type u} {α β : Type v}

variable {x : Except ε α} {f : α → Except ε β} {e : ε} {a : α} {items : List α} {results : List β}
  {tx : σ → Except ε (β × σ)}

lemma bind_eq_ok {b : β} : (x >>= f) = .ok b ↔ ∃ a, x = .ok a ∧ f a = .ok b := by
  cases x with
  | error e | ok a => simp [bind, Except.bind]

lemma bind_eq_error : (x >>= f) = .error e ↔ x = .error e ∨ ∃ a, x = .ok a ∧ f a = .error e := by
  cases x with
  | error e' | ok a => simp [bind, Except.bind]

lemma mapError_eq_ok {f : ε → ε'} : x.mapError f = .ok a ↔ x = .ok a := by
  cases x with
  | error e | ok a' => simp [Except.mapError]

lemma pure_eq_ok {b : α} : (pure a : Except ε α) = .ok b ↔ a = b := by
  simp [pure, Except.pure]

lemma done_eq_ok {τ : Type v} {b : α} {s t : τ} :
    (pure (a, s) : Except ε (α × τ)) = .ok (b, t) ↔ a = b ∧ s = t := by
  rw [pure_eq_ok, Prod.mk.injEq]

lemma toOption_eq_some : x.toOption = some a ↔ x = .ok a := by
  cases x with
  | error e | ok a' => simp [Except.toOption]

lemma forM_eq_ok {f : α → Except ε PUnit} {u : PUnit} :
    items.forM f = .ok u ↔ ∀ item ∈ items, f item = .ok ⟨⟩ := by
  induction items with
  | nil => simp [pure, Except.pure]
  | cons item rest ih =>
    show (f item >>= fun _ => rest.forM f) = .ok u ↔ _
    rw [bind_eq_ok, forall_mem_cons, ← ih]
    constructor
    · rintro ⟨u, hitem, hrest⟩
      exact ⟨hitem, hrest⟩
    · rintro ⟨hitem, hrest⟩
      exact ⟨⟨⟩, hitem, hrest⟩

lemma mapM_eq_ok : items.mapM f = .ok results ↔
      List.Forall₂ (fun item result => f item = .ok result) items results := by
  induction items generalizing results with
  | nil =>
    rw [mapM_nil, pure_eq_ok, forall₂_nil_left_iff, eq_comm]
  | cons item rest ih =>
    rw [mapM_cons, bind_eq_ok, forall₂_cons_left_iff]
    constructor
    · rintro ⟨result, hitem, h⟩
      obtain ⟨later, hlater, h⟩ := bind_eq_ok.1 h
      exact ⟨result, later, hitem, ih.1 hlater, (pure_eq_ok.1 h).symm⟩
    · rintro ⟨result, later, hitem, hlater, rfl⟩
      exact ⟨result, hitem, bind_eq_ok.2 ⟨later, ih.2 hlater, rfl⟩⟩

lemma exists_of_mem_mapM (h : items.mapM f = .ok results) {result : β}
    (hresult : result ∈ results) : ∃ item ∈ items, f item = .ok result := by
  have hall := mapM_eq_ok.1 h
  clear h
  induction hall with
  | nil => cases hresult
  | cons hitem _ ih =>
    rcases mem_cons.1 hresult with rfl | hresult
    · exact ⟨_, mem_cons_self, hitem⟩
    · obtain ⟨item, hmem, hitem⟩ := ih hresult
      exact ⟨item, mem_cons_of_mem _ hmem, hitem⟩

lemma map_of_mapM {γ : Type*} {g : β → γ} {k : α → γ} (h : items.mapM f = .ok results)
    (hg : ∀ a b, f a = .ok b → g b = k a) : results.map g = items.map k := by
  have hall := mapM_eq_ok.1 h
  clear h
  induction hall with
  | nil => rfl
  | cons hitem _ ih => rw [map_cons, map_cons, ih, hg _ _ hitem]

/-- Fail with `e` unless the condition holds. -/
def ensure (condition : Bool) (e : ε) : Except ε Unit :=
  if condition then .ok () else .error e

lemma ensure_eq_ok {condition : Bool} {u : Unit} :
    ensure condition e = .ok u ↔ condition = true := by
  cases condition <;> simp [ensure]

lemma ensure_eq_error {condition : Bool} {e' : ε} :
    ensure condition e = .error e' ↔ condition = false ∧ e = e' := by
  cases condition <;> simp [ensure]

/-! ## Errors -/

/-- Every error of the computation satisfies `P`. -/
def Raises (P : ε → Prop) (x : Except ε α) : Prop := ∀ e, x = .error e → P e

section Raises

variable {P : ε → Prop}

lemma raises_pure (a : α) : Raises P (pure a : Except ε α) := by
  intro e h
  cases h

lemma raises_throw {e : ε} (h : P e) : Raises P (throw e : Except ε α) := by
  intro e' h'
  cases h'
  exact h

lemma raises_ensure {condition : Bool} {e : ε} (h : condition = false → P e) :
    Raises P (ensure condition e) := by
  intro e' h'
  cases condition with
  | true => cases h'
  | false =>
    cases h'
    exact h rfl

variable {f : α → Except ε β}

lemma Raises.bind {x : Except ε α} (hx : Raises P x) (hf : ∀ a, x = .ok a → Raises P (f a)) :
    Raises P (x >>= f) := by
  intro e h
  cases hok : x with
  | error e' =>
    rw [hok] at h
    cases h
    exact hx _ hok
  | ok a =>
    rw [hok] at h
    exact hf a hok e h

lemma raises_mapM {items : List α} (h : ∀ item ∈ items, Raises P (f item)) :
    Raises P (items.mapM f) := by
  induction items with
  | nil => exact raises_pure []
  | cons item rest ih =>
    rw [mapM_cons]
    refine (h item mem_cons_self).bind fun _ _ => ?_
    refine (ih fun later hlater => h later (mem_cons_of_mem _ hlater)).bind fun _ _ => ?_
    exact raises_pure _

end Raises

/-- The store after a transaction: the new one if it committed, the old one if it rolled back. -/
def commit (tx : σ → Except ε (β × σ)) (s : σ) : σ :=
  match tx s with
  | .ok (_, s') => s'
  | .error _ => s

lemma commit_of_ok {s s' : σ} {b : β} (h : tx s = .ok (b, s')) : commit tx s = s' := by
  simp [commit, h]

lemma commit_of_error {s : σ} (h : tx s = .error e) : commit tx s = s := by
  simp [commit, h]

lemma commit_rec {P : σ → Prop} {s : σ} (hrollback : P s)
    (hcommit : ∀ b s', tx s = .ok (b, s') → P s') : P (commit tx s) := by
  cases h : tx s with
  | error e => rwa [commit_of_error h]
  | ok result => rw [commit_of_ok (b := result.1) h]; exact hcommit _ _ h

end Wamn.Lib
