import Mathlib.Data.List.Dedup
import Mathlib.Logic.Function.Basic
import Mathlib.Order.Defs.PartialOrder

/-!
# Buckets of keys with revisions

A bucket holds the last change of each key: a value, or the mark of a delete. Every change has a
revision, counted from 1 over all keys. An update names the revision that its key must have, 0 for a
key without a change. The bucket may drop a change that has reached an age.

`changes` is every change so far: what a reader that follows the bucket has seen. The bucket itself
holds those that `last` names.
-/

namespace Wamn.Lib

open List

/-- A change of a key: a value, or a delete, and when it was written. -/
structure KvChange (κ ω : Type*) where
  key : κ
  value : Option ω
  written : ℕ

/-- A bucket, with every change so far and the revision of the change it holds for each key. -/
structure KvBucket (κ ω : Type*) where
  changes : List (KvChange κ ω)
  last : κ → Option ℕ

namespace KvBucket

variable {κ ω : Type*}

/-- Nothing was written yet. -/
def empty : KvBucket κ ω := ⟨[], fun _ => none⟩

/-- The revision of the last change. -/
def revision (b : KvBucket κ ω) : ℕ := b.changes.length

/-- The change of a revision. -/
def change (b : KvBucket κ ω) : ℕ → Option (KvChange κ ω)
  | 0 => none
  | r + 1 => b.changes[r]?

/-- The revision that an update of a key has to name. -/
def lastRevision (b : KvBucket κ ω) (key : κ) : ℕ := (b.last key).getD 0

lemma le_revision {b : KvBucket κ ω} {r : ℕ} {c : KvChange κ ω} (h : b.change r = some c) :
    0 < r ∧ r ≤ b.revision := by
  cases r with
  | zero => cases h
  | succ r => exact ⟨Nat.succ_pos r, (List.getElem?_eq_some_iff.1 h).1⟩

/-- Changes were written in the order of their revisions, the bucket holds the newest change of a
key, and it has lost only what reached its age. -/
structure Valid (ttl now : ℕ) (b : KvBucket κ ω) : Prop where
  ordered : ∀ {r r' c c'}, b.change r = some c → b.change r' = some c' → r ≤ r' →
    c.written ≤ c'.written
  past : ∀ {r c}, b.change r = some c → c.written ≤ now
  held : ∀ {key r}, b.last key = some r → ∃ c, b.change r = some c ∧ c.key = key
  newest : ∀ {key r r' c}, b.last key = some r → b.change r' = some c → c.key = key → r' ≤ r
  lost : ∀ {key r c}, b.last key = none → b.change r = some c → c.key = key →
    c.written + ttl ≤ now

lemma valid_empty {ttl now : ℕ} : (empty : KvBucket κ ω).Valid ttl now := by
  have hnone : ∀ r, (empty : KvBucket κ ω).change r = none := by
    intro r
    cases r <;> rfl
  refine ⟨?_, ?_, ?_, ?_, ?_⟩
  · intro r r' c c' hc
    simp [hnone] at hc
  · intro r c hc
    simp [hnone] at hc
  · intro key r hlast
    cases hlast
  · intro key r r' c hlast
    cases hlast
  · intro key r c _ hc
    simp [hnone] at hc

lemma Valid.later {b : KvBucket κ ω} {ttl now now' : ℕ} (h : b.Valid ttl now)
    (hnow : now ≤ now') : b.Valid ttl now' where
  ordered := h.ordered
  past hc := Nat.le_trans (h.past hc) hnow
  held := h.held
  newest := h.newest
  lost hlast hc hkey := Nat.le_trans (h.lost hlast hc hkey) hnow

variable [DecidableEq κ]

variable (b : KvBucket κ ω) (now : ℕ) (key : κ)

/-- Write a change at the next revision. -/
def write (value : Option ω) : KvBucket κ ω where
  changes := b.changes ++ [⟨key, value, now⟩]
  last := Function.update b.last key (some (b.revision + 1))

/-- Write a value if the key has the revision. -/
def update (value : ω) (revision : ℕ) : Option (KvBucket κ ω) :=
  if b.lastRevision key = revision then some (b.write now key (some value)) else none

/-- Delete a key, which writes a mark in any case. -/
def delete : KvBucket κ ω := b.write now key none

/-- Drop the change of a key that has reached an age. -/
def expire (ttl now : ℕ) (key : κ) : KvBucket κ ω :=
  match (b.last key).bind b.change with
  | some c =>
    if c.written + ttl ≤ now then { b with last := Function.update b.last key none } else b
  | none => b

/-- The keys with a change, among those that are asked for. -/
def keys (wanted : κ → Bool) : List κ :=
  ((b.changes.map KvChange.key).dedup.filter fun key => (b.last key).isSome).filter wanted

variable {b : KvBucket κ ω} {ttl now r r' : ℕ} {key key' : κ} {value : Option ω}
  {c c' : KvChange κ ω}

lemma revision_write : (b.write now key value).revision = b.revision + 1 := by
  simp [revision, write]

lemma change_write :
    (b.write now key value).change r =
      if r = b.revision + 1 then some ⟨key, value, now⟩ else b.change r := by
  cases r with
  | zero => rfl
  | succ r =>
    simp only [change, write, revision, Nat.succ.injEq, getElem?_append]
    split
    · rename_i h
      rw [if_neg (by omega)]
    · split
      · rename_i h
        simp [h]
      · rw [getElem?_eq_none (by simp; omega), getElem?_eq_none (by omega)]

lemma change_write_of_le (h : r ≤ b.revision) :
    (b.write now key value).change r = b.change r := by
  rw [change_write, if_neg (by omega)]

lemma change_write_eq_some :
    (b.write now key value).change r = some c ↔
      r = b.revision + 1 ∧ c = ⟨key, value, now⟩ ∨ b.change r = some c := by
  rw [change_write]
  split
  · rename_i h
    constructor
    · exact fun h' => .inl ⟨h, (Option.some.inj h').symm⟩
    · rintro (⟨-, rfl⟩ | h')
      · rfl
      · have := (le_revision h').2
        omega
  · rename_i h
    exact ⟨.inr, fun h' => h'.resolve_left fun h'' => h h''.1⟩

@[simp] lemma changes_expire : (b.expire ttl now key).changes = b.changes := by
  unfold expire
  split
  · split <;> rfl
  · rfl

@[simp] lemma change_expire : (b.expire ttl now key).change r = b.change r := by
  cases r with
  | zero => rfl
  | succ r => simp [change]

@[simp] lemma revision_expire : (b.expire ttl now key).revision = b.revision := by
  simp [revision]

lemma last_expire_cases (b : KvBucket κ ω) (ttl now : ℕ) (key key' : κ) :
    (b.expire ttl now key).last key' = b.last key' ∨
      key' = key ∧ (b.expire ttl now key).last key' = none ∧
        ∃ r c, b.last key = some r ∧ b.change r = some c ∧ c.written + ttl ≤ now := by
  unfold expire
  split
  · rename_i c hc
    obtain ⟨r, hr, hchange⟩ := Option.bind_eq_some_iff.1 hc
    split
    · rename_i hold
      by_cases hkey : key' = key
      · exact .inr ⟨hkey, by simp [hkey], r, c, hr, hchange, hold⟩
      · exact .inl (by simp [hkey])
    · exact .inl rfl
  · exact .inl rfl

namespace Valid

variable (h : b.Valid ttl now)
include h

lemma write : (b.write now key value).Valid ttl now where
  ordered := by
    intro r r' c c' hc hc' hle
    rcases change_write_eq_some.1 hc with ⟨rfl, rfl⟩ | hold
    · rcases change_write_eq_some.1 hc' with ⟨-, rfl⟩ | hold'
      · exact Nat.le_refl _
      · have := (le_revision hold').2
        omega
    · rcases change_write_eq_some.1 hc' with ⟨-, rfl⟩ | hold'
      · exact h.past hold
      · exact h.ordered hold hold' hle
  past := by
    intro r c hc
    rcases change_write_eq_some.1 hc with ⟨-, rfl⟩ | hold
    · exact Nat.le_refl _
    · exact h.past hold
  held := by
    intro key' r hlast
    by_cases hkey : key' = key
    · subst hkey
      obtain rfl : b.revision + 1 = r := by simpa [KvBucket.write] using hlast
      exact ⟨_, change_write_eq_some.2 (.inl ⟨rfl, rfl⟩), rfl⟩
    · have hlast' : b.last key' = some r := by simpa [KvBucket.write, hkey] using hlast
      obtain ⟨c, hc, hckey⟩ := h.held hlast'
      exact ⟨c, change_write_eq_some.2 (.inr hc), hckey⟩
  newest := by
    intro key' r r' c hlast hc hckey
    by_cases hkey : key' = key
    · subst hkey
      obtain rfl : b.revision + 1 = r := by simpa [KvBucket.write] using hlast
      have := (le_revision hc).2
      rwa [revision_write] at this
    · rcases change_write_eq_some.1 hc with ⟨-, rfl⟩ | hold
      · exact absurd hckey.symm hkey
      · exact h.newest (by simpa [KvBucket.write, hkey] using hlast) hold hckey
  lost := by
    intro key' r c hlast hc hckey
    by_cases hkey : key' = key
    · simp [KvBucket.write, hkey] at hlast
    · rcases change_write_eq_some.1 hc with ⟨-, rfl⟩ | hold
      · exact absurd hckey.symm hkey
      · exact h.lost (by simpa [KvBucket.write, hkey] using hlast) hold hckey

lemma expire : (b.expire ttl now key).Valid ttl now where
  ordered := by
    intro r r' c c' hc hc'
    rw [change_expire] at hc hc'
    exact h.ordered hc hc'
  past := by
    intro r c hc
    rw [change_expire] at hc
    exact h.past hc
  held := by
    intro key' r hlast
    rcases last_expire_cases b ttl now key key' with hsame | ⟨-, hnone, -⟩
    · obtain ⟨c, hc, hckey⟩ := h.held (hsame ▸ hlast)
      exact ⟨c, change_expire.trans hc, hckey⟩
    · simp [hnone] at hlast
  newest := by
    intro key' r r' c hlast hc hckey
    rcases last_expire_cases b ttl now key key' with hsame | ⟨-, hnone, -⟩
    · rw [change_expire] at hc
      exact h.newest (hsame ▸ hlast) hc hckey
    · simp [hnone] at hlast
  lost := by
    intro key' r c hlast hc hckey
    rw [change_expire] at hc
    rcases last_expire_cases b ttl now key key' with hsame |
      ⟨rfl, -, r', c', hheld, hc', hold⟩
    · exact h.lost (hsame ▸ hlast) hc hckey
    · -- Every change of the key is at most as young as the one that was dropped.
      have := h.ordered hc hc' (h.newest hheld hc hckey)
      omega

lemma mem_keys {wanted : κ → Bool} :
    key ∈ b.keys wanted ↔ wanted key = true ∧ (b.last key).isSome = true := by
  simp only [keys, mem_filter, mem_dedup, mem_map]
  constructor
  · rintro ⟨⟨-, hlast⟩, hwanted⟩
    exact ⟨hwanted, hlast⟩
  · rintro ⟨hwanted, hlast⟩
    obtain ⟨r, hr⟩ := Option.isSome_iff_exists.1 hlast
    obtain ⟨c, hc, hckey⟩ := h.held hr
    refine ⟨⟨⟨c, ?_, hckey⟩, hlast⟩, hwanted⟩
    cases r with
    | zero => cases hc
    | succ r => exact mem_of_getElem? hc

end Valid

end KvBucket

end Wamn.Lib
