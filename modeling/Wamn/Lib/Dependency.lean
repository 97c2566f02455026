import Mathlib.Data.Finset.Card
import Mathlib.Data.List.Perm.Basic
import Mathlib.Data.Nat.Find
import Mathlib.Logic.Relation
import Wamn.Lib.Worklist

/-!
# Dependencies and an order of them

Each item depends on at most one other. Following the dependencies of an item for as many steps as
there are items shows whether it depends on itself. If none does, taking the first item whose
dependency has been taken orders all items, each behind the one it depends on.
-/

namespace Wamn.Lib.Dependency

open Option List

universe u v

variable {ν : Type u}

/-! ## Following dependencies -/

/-- `b` is reached from `a` by one or more dependencies. -/
def Reaches (f : ν → Option ν) : ν → ν → Prop := Relation.TransGen fun a b => f a = some b

/-- What is reached by so many dependencies. -/
def follow (f : ν → Option ν) : ℕ → ν → Option ν
  | 0, a => some a
  | n + 1, a => (f a).bind (follow f n)

variable {f : ν → Option ν} {a b c : ν}

lemma follow_add (m n : ℕ) (a : ν) : follow f (m + n) a = (follow f m a).bind (follow f n) := by
  induction m generalizing a with
  | zero => rw [Nat.zero_add, follow, bind_some]
  | succ m ih =>
    rw [Nat.succ_add, follow, follow]
    cases hf : f a with
    | none => rfl
    | some b => exact ih b

lemma reaches_iff_follow : Reaches f a b ↔ ∃ n, follow f (n + 1) a = some b := by
  constructor
  · intro h
    induction h with
    | single h => exact ⟨0, by rw [follow, h]; rfl⟩
    | tail _ hstep ih =>
      obtain ⟨n, hn⟩ := ih
      refine ⟨n + 1, ?_⟩
      rw [follow_add (n + 1) 1, hn, bind_some, follow, hstep]
      rfl
  · rintro ⟨n, hn⟩
    induction n generalizing a with
    | zero =>
      obtain ⟨c, hc, hcb⟩ := bind_eq_some_iff.1 hn
      obtain rfl := Option.some.inj hcb
      exact .single hc
    | succ n ih =>
      obtain ⟨c, hc, hcb⟩ := bind_eq_some_iff.1 hn
      exact .head hc (ih hcb)

lemma exists_repeat (nodes : List ν)
    (h : ∀ i ≤ nodes.length, ∃ b ∈ nodes, follow f i a = some b) :
    ∃ i j b, i < j ∧ j ≤ nodes.length ∧ follow f i a = some b ∧ follow f j a = some b := by
  classical
  have hmaps : ∀ i ∈ Finset.range (nodes.length + 1),
      (follow f i a).getD a ∈ nodes.toFinset := by
    intro i hi
    obtain ⟨b, hb, hfollow⟩ := h i (by simpa using Nat.lt_succ_iff.1 (Finset.mem_range.1 hi))
    rw [hfollow, getD_some]
    exact mem_toFinset.2 hb
  have hcard : nodes.toFinset.card < (Finset.range (nodes.length + 1)).card := by
    rw [Finset.card_range]
    exact Nat.lt_succ_of_le nodes.toFinset_card_le
  obtain ⟨i, hi, j, hj, hne, heq⟩ :=
    Finset.exists_ne_map_eq_of_card_lt_of_maps_to hcard (fun i hi => hmaps i hi)
  have hle : ∀ {i}, i ∈ Finset.range (nodes.length + 1) → i ≤ nodes.length :=
    fun hi => Nat.lt_succ_iff.1 (Finset.mem_range.1 hi)
  obtain ⟨b, -, hb⟩ := h i (hle hi)
  obtain ⟨c, -, hc⟩ := h j (hle hj)
  obtain rfl : b = c := by simpa [hb, hc] using heq
  rcases Nat.lt_or_gt_of_ne hne with hlt | hlt
  · exact ⟨i, j, b, hlt, hle hj, hb, hc⟩
  · exact ⟨j, i, b, hlt, hle hi, hc, hb⟩

/-- An item that depends on itself does so within as many steps as there are items with a
dependency. -/
theorem reaches_self_iff {nodes : List ν} (hnodes : ∀ a b, f a = some b → a ∈ nodes) :
    Reaches f a a ↔ ∃ n < nodes.length, follow f (n + 1) a = some a := by
  refine ⟨fun h => ?_, fun ⟨n, _, hn⟩ => reaches_iff_follow.2 ⟨n, hn⟩⟩
  classical
  have hcycle := reaches_iff_follow.1 h
  -- The shortest way back passes through different items.
  obtain ⟨n, hback, hleast⟩ : ∃ n, follow f (n + 1) a = some a ∧
      ∀ m < n, follow f (m + 1) a ≠ some a :=
    ⟨Nat.find hcycle, Nat.find_spec hcycle, fun _ hm => Nat.find_min hcycle hm⟩
  refine ⟨n, ?_, hback⟩
  by_contra hlong
  have hwalk : ∀ i ≤ nodes.length, ∃ b ∈ nodes, follow f i a = some b := by
    intro i hi
    have hsplit : n + 1 = i + (n - i + 1) := by omega
    rw [hsplit, follow_add] at hback
    obtain ⟨b, hb, hrest⟩ := bind_eq_some_iff.1 hback
    obtain ⟨c, hc, -⟩ := bind_eq_some_iff.1 hrest
    exact ⟨b, hnodes b c hc, hb⟩
  obtain ⟨i, j, b, hij, hj, hi, hj'⟩ := exists_repeat nodes hwalk
  -- Leaving out the part between the two visits gives a shorter way back.
  have hrest : follow f (n + 1 - j) b = some a := by
    have hsplit : n + 1 = j + (n + 1 - j) := by omega
    rw [hsplit, follow_add, hj', bind_some] at hback
    exact hback
  refine hleast (i + (n - j)) (by omega) ?_
  have hsum : i + (n - j) + 1 = i + (n + 1 - j) := by omega
  rw [hsum, follow_add, hi, bind_some, hrest]

lemma exists_reaches_self {nodes : List ν} (ha : a ∈ nodes)
    (h : ∀ a ∈ nodes, ∃ b ∈ nodes, f a = some b) : ∃ b ∈ nodes, Reaches f b b := by
  have hwalk : ∀ i, ∃ b ∈ nodes, follow f i a = some b := by
    intro i
    induction i with
    | zero => exact ⟨a, ha, rfl⟩
    | succ i ih =>
      obtain ⟨b, hb, hfollow⟩ := ih
      obtain ⟨c, hc, hstep⟩ := h b hb
      refine ⟨c, hc, ?_⟩
      rw [follow_add i 1, hfollow, bind_some, follow, hstep]
      rfl
  obtain ⟨i, j, b, hij, -, hi, hj⟩ := exists_repeat nodes fun i _ => hwalk i
  have hmem : b ∈ nodes := by
    obtain ⟨c, hc, hfollow⟩ := hwalk i
    exact mem_unique hi hfollow ▸ hc
  refine ⟨b, hmem, reaches_iff_follow.2 ⟨j - i - 1, ?_⟩⟩
  have hsplit : j = i + (j - i - 1 + 1) := by omega
  rw [hsplit, follow_add, hi, bind_some] at hj
  exact hj

section Search

variable [DecidableEq ν]

/-- Follow the dependencies for at most `n` steps until `target` comes up. -/
def returnsWithin (f : ν → Option ν) (target : ν) : ℕ → ν → Bool
  | 0, _ => false
  | n + 1, current =>
    match f current with
    | none => false
    | some next => next = target || returnsWithin f target n next

lemma returnsWithin_iff {n : ℕ} :
    returnsWithin f b n a = true ↔ ∃ k < n, follow f (k + 1) a = some b := by
  induction n generalizing a with
  | zero => simp [returnsWithin]
  | succ n ih =>
    rw [returnsWithin]
    cases hf : f a with
    | none => simp [follow, hf]
    | some next =>
      simp only [Bool.or_eq_true, decide_eq_true_eq, ih]
      constructor
      · rintro (rfl | ⟨k, hk, hfollow⟩)
        · exact ⟨0, by omega, by rw [follow, hf]; rfl⟩
        · exact ⟨k + 1, by omega, by rw [follow, hf]; exact hfollow⟩
      · rintro ⟨k, hk, hfollow⟩
        rw [follow, hf, bind_some] at hfollow
        cases k with
        | zero => exact .inl (Option.some.inj hfollow)
        | succ k => exact .inr ⟨k, by omega, hfollow⟩

end Search

/-! ## An order -/

variable {α : Type v}

/-- The first item that meets the condition, and the others. -/
def takeFirst (p : α → Bool) : List α → Option (α × List α)
  | [] => none
  | x :: rest =>
    if p x then some (x, rest) else (takeFirst p rest).map fun taken => (taken.1, x :: taken.2)

lemma takeFirst_eq_some {p : α → Bool} {items rest : List α} {x : α}
    (h : takeFirst p items = some (x, rest)) : p x = true ∧ items.Perm (x :: rest) := by
  induction items generalizing rest with
  | nil => cases h
  | cons y items ih =>
    rw [takeFirst] at h
    split at h
    · rename_i hy
      obtain ⟨rfl, rfl⟩ := Prod.mk.inj (Option.some.inj h)
      exact ⟨hy, .refl _⟩
    · obtain ⟨⟨x', rest'⟩, htaken, heq⟩ := map_eq_some_iff.1 h
      obtain ⟨rfl, rfl⟩ := Prod.mk.inj heq
      obtain ⟨hx, hperm⟩ := ih htaken
      exact ⟨hx, (hperm.cons y).trans (.swap ..)⟩

lemma takeFirst_eq_none {p : α → Bool} {items : List α} (h : takeFirst p items = none) :
    ∀ x ∈ items, p x = false := by
  induction items with
  | nil => exact nofun
  | cons y items ih =>
    rw [takeFirst] at h
    split at h
    · cases h
    · rename_i hy
      exact forall_mem_cons.2
        ⟨by simpa using hy, ih (map_eq_none_iff.1 h)⟩

section Order

variable [DecidableEq ν] (name : α → ν) (needs : α → Option ν)

/-- What the item needs has been taken. -/
def isReady (taken : List α) (x : α) : Bool :=
  match needs x with
  | some other => taken.any fun y => name y = other
  | none => true

/-- Take one ready item after the other. -/
def order : ℕ → List α → List α → Option (List α)
  | _, [], taken => some taken
  | 0, _ :: _, _ => none
  | fuel + 1, p :: pending, taken =>
    match takeFirst (isReady name needs taken) (p :: pending) with
    | none => none
    | some (x, rest) => order fuel rest (taken ++ [x])

/-- Every item stands behind the one it needs. -/
def Ordered (items : List α) : Prop :=
  ∀ pre x post, items = pre ++ x :: post → ∀ other, needs x = some other → ∃ y ∈ pre, name y = other

variable {name needs}

lemma isReady_iff {taken : List α} {x : α} :
    isReady name needs taken x = true ↔
      ∀ other, needs x = some other → ∃ y ∈ taken, name y = other := by
  unfold isReady
  cases needs x with
  | none | some other => simp

lemma Ordered.concat {taken : List α} {x : α} (h : Ordered name needs taken)
    (hx : isReady name needs taken x = true) : Ordered name needs (taken ++ [x]) :=
  forall_split_concat h fun other hother => isReady_iff.1 hx other hother

lemma exists_isReady {pending taken : List α} {x : α} (hx : x ∈ pending)
    (hneeds : ∀ y ∈ pending, f (name y) = needs y)
    (hknown : ∀ y ∈ pending, ∀ other, needs y = some other → ∃ z ∈ taken ++ pending, name z = other)
    (hacyclic : ∀ y ∈ pending, ¬ Reaches f (name y) (name y)) :
    ∃ y ∈ pending, isReady name needs taken y = true := by
  by_contra hnone
  push Not at hnone
  -- Every pending item waits for a pending one, so one of them waits for itself.
  have hwaits : ∀ a ∈ pending.map name, ∃ b ∈ pending.map name, f a = some b := by
    intro a ha
    obtain ⟨y, hy, rfl⟩ := mem_map.1 ha
    have hblocked := hnone y hy
    rw [Ne, isReady_iff] at hblocked
    push Not at hblocked
    obtain ⟨other, hother, htaken⟩ := hblocked
    obtain ⟨z, hz, rfl⟩ := hknown y hy other hother
    rcases mem_append.1 hz with hz | hz
    · exact absurd rfl (htaken z hz)
    · exact ⟨name z, mem_map_of_mem hz, (hneeds y hy).trans hother⟩
  obtain ⟨b, hb, hcycle⟩ := exists_reaches_self (mem_map_of_mem hx) hwaits
  obtain ⟨y, hy, rfl⟩ := mem_map.1 hb
  exact hacyclic y hy hcycle

lemma order_append {fuel : ℕ} {pending taken : List α} (hfuel : pending.length ≤ fuel)
    (htaken : Ordered name needs taken) (hneeds : ∀ y ∈ pending, f (name y) = needs y)
    (hknown : ∀ y ∈ pending, ∀ other, needs y = some other → ∃ z ∈ taken ++ pending, name z = other)
    (hacyclic : ∀ y ∈ pending, ¬ Reaches f (name y) (name y)) :
    ∃ ordered, order name needs fuel pending taken = some ordered ∧
      ordered.Perm (taken ++ pending) ∧ Ordered name needs ordered := by
  induction fuel generalizing pending taken with
  | zero =>
    obtain rfl := length_eq_zero_iff.1 (Nat.le_zero.1 hfuel)
    exact ⟨taken, rfl, by simp, htaken⟩
  | succ fuel ih =>
    cases pending with
    | nil => exact ⟨taken, rfl, by simp, htaken⟩
    | cons p pending =>
      obtain ⟨y, hy, hready⟩ := exists_isReady mem_cons_self hneeds hknown hacyclic
      rw [order]
      cases hfirst : takeFirst (isReady name needs taken) (p :: pending) with
      | none =>
        rw [takeFirst_eq_none hfirst y hy] at hready
        cases hready
      | some picked =>
        obtain ⟨x, rest⟩ := picked
        obtain ⟨hx, hperm⟩ := takeFirst_eq_some hfirst
        have hrest : ∀ y ∈ rest, y ∈ p :: pending :=
          fun y hy => hperm.mem_iff.2 (mem_cons_of_mem _ hy)
        have hall : (taken ++ [x] ++ rest).Perm (taken ++ p :: pending) := by
          rw [append_assoc]
          exact hperm.symm.append_left taken
        have hlength : rest.length ≤ fuel := by
          have := hperm.length_eq
          simp only [length_cons] at this hfuel
          omega
        obtain ⟨ordered, horder, hordered, hsorted⟩ := ih hlength (htaken.concat hx)
          (fun y hy => hneeds y (hrest y hy))
          (fun y hy other hother => by
            obtain ⟨z, hz, hname⟩ := hknown y (hrest y hy) other hother
            exact ⟨z, hall.mem_iff.2 hz, hname⟩)
          fun y hy => hacyclic y (hrest y hy)
        exact ⟨ordered, horder, hordered.trans hall, hsorted⟩

lemma order_eq_some {items : List α} (hneeds : ∀ y ∈ items, f (name y) = needs y)
    (hknown : ∀ y ∈ items, ∀ other, needs y = some other → ∃ z ∈ items, name z = other)
    (hacyclic : ∀ y ∈ items, ¬ Reaches f (name y) (name y)) :
    ∃ ordered, order name needs items.length items [] = some ordered ∧
      ordered.Perm items ∧ Ordered name needs ordered := by
  have hempty : Ordered name needs [] := fun pre x post h => absurd h (by simp)
  exact order_append (Nat.le_refl _) hempty hneeds hknown hacyclic

end Order

end Wamn.Lib.Dependency
