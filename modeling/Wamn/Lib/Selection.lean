import Mathlib.Data.List.MinMax
import Mathlib.Data.List.Sort

/-!
# Taking the least free element

A queue whose heads are taken one by one: every taker looks for the least element that nobody holds.
Elements are told apart by a tag and ordered by a key. The first takers get the beginning of the
sorted list.
-/

namespace Wamn.Lib

open List

variable {α ι κ : Type*} [LinearOrder κ] {tag : α → ι} {key : α → κ} {l : List α}

/-- The elements in the order of their keys; equal keys keep their order. -/
def sortOn (key : α → κ) (l : List α) : List α := l.insertionSort fun a b => key a ≤ key b

/-- The least element whose tag is not taken. -/
def leastFree [DecidableEq ι] (tag : α → ι) (key : α → κ) (taken : List ι) (l : List α) :
    Option α :=
  (l.filter fun a => tag a ∉ taken).argmin key

/-- What the first takers get, in their order. -/
def takeLeast [DecidableEq ι] (tag : α → ι) (key : α → κ) (l : List α) : ℕ → List α
  | 0 => []
  | n + 1 =>
    let taken := takeLeast tag key l n
    taken ++ (leastFree tag key (taken.map tag) l).toList

lemma perm_sortOn (key : α → κ) (l : List α) : (sortOn key l).Perm l :=
  perm_insertionSort _ l

lemma pairwise_sortOn (key : α → κ) (l : List α) :
    (sortOn key l).Pairwise fun a b => key a ≤ key b :=
  pairwise_insertionSort (r := fun a b : α => key a ≤ key b) l

lemma mem_drop_sortOn (hnodup : (l.map tag).Nodup) (n : ℕ) (a : α) :
    a ∈ (sortOn key l).drop n ↔ a ∈ l ∧ tag a ∉ ((sortOn key l).take n).map tag := by
  have hsplit := take_append_drop n (sortOn key l)
  have hmem : a ∈ l ↔ a ∈ (sortOn key l).take n ∨ a ∈ (sortOn key l).drop n := by
    rw [← mem_append, hsplit]
    exact (perm_sortOn key l).mem_iff.symm
  -- No tag is both taken and left.
  have hdisjoint : List.Disjoint (((sortOn key l).take n).map tag)
      (((sortOn key l).drop n).map tag) := by
    have hsorted := (((perm_sortOn key l).map tag).nodup_iff).2 hnodup
    rw [← hsplit, map_append] at hsorted
    exact disjoint_of_nodup_append hsorted
  constructor
  · intro hdrop
    exact ⟨hmem.2 (.inr hdrop), fun htaken => hdisjoint htaken (mem_map_of_mem hdrop)⟩
  · rintro ⟨hl, hfree⟩
    exact (hmem.1 hl).resolve_left fun htake => hfree (mem_map_of_mem htake)

lemma leastFree_take [DecidableEq ι] (hnodup : (l.map tag).Nodup)
    (hkey : ∀ a ∈ l, ∀ b ∈ l, key a = key b → a = b) (n : ℕ) :
    leastFree tag key (((sortOn key l).take n).map tag) l = (sortOn key l)[n]? := by
  have hfilter : ∀ a, a ∈ l.filter (fun a => tag a ∉ ((sortOn key l).take n).map tag) ↔
      a ∈ (sortOn key l).drop n := by
    intro a
    rw [mem_drop_sortOn hnodup, mem_filter, decide_eq_true_iff]
  have hhead : (sortOn key l)[n]? = ((sortOn key l).drop n).head? := by rw [head?_drop]
  rw [hhead]
  cases hdrop : (sortOn key l).drop n with
  | nil =>
    rw [hdrop] at hfilter
    rw [leastFree, head?_nil, argmin_eq_none, eq_nil_iff_forall_not_mem]
    exact fun a ha => not_mem_nil ((hfilter a).1 ha)
  | cons a rest =>
    rw [hdrop] at hfilter
    have ha := (hfilter a).2 mem_cons_self
    cases hleast : leastFree tag key (((sortOn key l).take n).map tag) l with
    | none =>
      rw [leastFree, argmin_eq_none] at hleast
      rw [hleast] at ha
      cases ha
    | some b =>
      -- The least free element is the head of what is left: neither key is above the other.
      have hb := argmin_mem hleast
      have hle : key b ≤ key a := le_of_mem_argmin ha hleast
      have hge : key a ≤ key b := by
        have hsorted := (pairwise_sortOn key l).sublist (drop_sublist n _)
        rw [hdrop] at hsorted
        rcases mem_cons.1 ((hfilter b).1 hb) with rfl | hrest
        · exact le_rfl
        · exact rel_of_pairwise_cons hsorted hrest
      rw [head?_cons, hkey b (mem_of_mem_filter hb) a (mem_of_mem_filter ha)
        (le_antisymm hle hge)]

/-- The takers get the first elements of the sorted list. -/
theorem takeLeast_eq [DecidableEq ι] (hnodup : (l.map tag).Nodup)
    (hkey : ∀ a ∈ l, ∀ b ∈ l, key a = key b → a = b) (n : ℕ) :
    takeLeast tag key l n = (sortOn key l).take n := by
  induction n with
  | zero => rfl
  | succ n ih => rw [takeLeast, ih, leastFree_take hnodup hkey, take_add_one]

/-- A part of a list holds its first elements by a key, up to a limit. -/
structure IsFirst (key : α → κ) (limit : ℕ) (l chosen : List α) : Prop where
  mem : ∀ a ∈ chosen, a ∈ l
  ordered : chosen.Pairwise fun a b => key a < key b
  length : chosen.length = min limit l.length
  least : ∀ a ∈ l, a ∉ chosen → ∀ b ∈ chosen, key b < key a

lemma isFirst_take_sortOn (hnodup : (l.map key).Nodup) (limit : ℕ) :
    IsFirst key limit l ((sortOn key l).take limit) := by
  have hsorted : (sortOn key l).Pairwise fun a b => key a < key b := by
    have hdistinct : (sortOn key l).Pairwise fun a b => key a ≠ key b :=
      pairwise_map.1 (((perm_sortOn key l).map key).nodup_iff.2 hnodup)
    exact ((pairwise_sortOn key l).and hdistinct).imp fun h => lt_of_le_of_ne h.1 h.2
  exact {
    mem := fun a ha => (perm_sortOn key l).mem_iff.1 (mem_of_mem_take ha)
    ordered := hsorted.sublist (take_sublist limit _)
    length := by rw [length_take, (perm_sortOn key l).length_eq]
    least := by
      intro a ha hnot b hb
      have hsplit := take_append_drop limit (sortOn key l)
      have hdrop : a ∈ (sortOn key l).drop limit := by
        have hmem := (perm_sortOn key l).mem_iff.2 ha
        rw [← hsplit] at hmem
        exact (mem_append.1 hmem).resolve_left hnot
      rw [← hsplit] at hsorted
      exact (pairwise_append.1 hsorted).2.2 b hb a hdrop }

end Wamn.Lib
