import Mathlib.Data.List.Nodup

/-!
# Rows under a unique key

A table is a list of rows, and a unique index says that no two rows have the same key: what a query
by the key finds, and which changes keep the key unique.
-/

namespace Wamn.Lib.Keyed

open List

variable {α κ : Type*} {key : α → κ} {rows : List α} {row : α} {k : κ}

lemma nodup_cons_of_fresh (hunique : (rows.map key).Nodup)
    (hfresh : ∀ other ∈ rows, key other ≠ key row) : ((row :: rows).map key).Nodup := by
  rw [map_cons, nodup_cons]
  refine ⟨fun hmem => ?_, hunique⟩
  obtain ⟨other, hother, hkey⟩ := mem_map.1 hmem
  exact hfresh other hother hkey

lemma nodup_map_of_key (hunique : (rows.map key).Nodup) {f : α → α}
    (hkey : ∀ row, key (f row) = key row) : ((rows.map f).map key).Nodup := by
  rw [map_map]
  convert hunique using 2
  funext row
  exact hkey row

section Query

variable [DecidableEq κ]

lemma find?_and_eq_some (hunique : (rows.map key).Nodup) (p : α → Bool) :
    rows.find? (fun row => p row && key row = k) = some row ↔
      row ∈ rows ∧ p row = true ∧ key row = k := by
  constructor
  · intro h
    have hfound := find?_some h
    simp only [Bool.and_eq_true, decide_eq_true_eq] at hfound
    exact ⟨mem_of_find?_eq_some h, hfound⟩
  · rintro ⟨hrow, hp, rfl⟩
    cases h : rows.find? (fun other => p other && key other = key row) with
    | none =>
      have hnone := List.find?_eq_none.1 h row hrow
      simp [hp] at hnone
    | some other =>
      have hfound := find?_some h
      simp only [Bool.and_eq_true, decide_eq_true_eq] at hfound
      rw [inj_on_of_nodup_map hunique (mem_of_find?_eq_some h) hrow hfound.2]

lemma find?_eq_some (hunique : (rows.map key).Nodup) :
    rows.find? (fun row => key row = k) = some row ↔ row ∈ rows ∧ key row = k := by
  simpa using find?_and_eq_some (k := k) hunique fun _ => true

lemma find?_eq_none :
    rows.find? (fun row => key row = k) = none ↔ ∀ row ∈ rows, key row ≠ k := by
  simp [List.find?_eq_none]

end Query

end Wamn.Lib.Keyed
