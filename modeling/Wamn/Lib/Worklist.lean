import Mathlib.Data.List.Basic

/-!
# Worklists

A worklist starts with a seed of tokens. A piece of work takes the first token and puts the tokens
that it spawns at the end. `Worklist seed token spawn done pending` says that `done` can be worked
off in that order, with `pending` left.
-/

namespace Wamn.Lib

open List

universe u v

variable {α : Type u} {τ : Type v}

/-- The induction step for facts about every element and what precedes it. -/
theorem forall_split_concat {P : List α → α → Prop} {l : List α} {x : α}
    (hl : ∀ pre a post, l = pre ++ a :: post → P pre a) (hx : P l x) :
    ∀ pre a post, l ++ [x] = pre ++ a :: post → P pre a := by
  intro pre a post hsplit
  rcases eq_nil_or_concat' post with rfl | ⟨post', y, rfl⟩
  · obtain ⟨rfl, hsame⟩ := append_inj' hsplit rfl
    obtain rfl : x = a := singleton_inj.1 hsame
    exact hx
  · have hassoc : l ++ [x] = (pre ++ a :: post') ++ [y] := by
      rw [hsplit, append_assoc, cons_append]
    exact hl pre a post' (append_inj' hassoc rfl).1

/-- Work done in order from a seed, with the tokens that are left. -/
inductive Worklist (seed : List τ) (token : α → τ) (spawn : α → List τ) :
    List α → List τ → Prop where
  | start : Worklist seed token spawn [] seed
  | take {done : List α} {rest : List τ} (x : α)
      (h : Worklist seed token spawn done (token x :: rest)) :
      Worklist seed token spawn (done ++ [x]) (rest ++ spawn x)

namespace Worklist

variable {seed pending : List τ} {token : α → τ} {spawn : α → List τ} {done : List α}

/-- The seed and what was spawned is what was taken and what is left, in this order. -/
theorem conserved (h : Worklist seed token spawn done pending) :
    seed ++ done.flatMap spawn = done.map token ++ pending := by
  induction h with
  | start => simp
  | take x _ ih =>
    rw [flatMap_append, ← append_assoc, ih]
    simp

/-- Each piece of work took the first token that was left at its turn. -/
theorem next_of_split (h : Worklist seed token spawn done pending) :
    ∀ pre x post, done = pre ++ x :: post →
      ∃ rest, seed ++ pre.flatMap spawn = pre.map token ++ token x :: rest := by
  induction h with
  | start =>
    intro pre x post hsplit
    simp at hsplit
  | take x hdone ih => exact forall_split_concat ih ⟨_, hdone.conserved⟩

end Worklist

end Wamn.Lib
