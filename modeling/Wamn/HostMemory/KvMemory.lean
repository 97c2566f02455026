import Mathlib.Data.String.Basic
import Wamn.Lib.KvBucket
import Wamn.Lib.OrdMap

/-!
# The host's replica of a bucket

A host remembers, for each key, the newest change of a bucket that it has seen, and answers from it
for a time. A fact read from Postgres is put with the revision the key had before the read.
-/

namespace Wamn.HostMemory

open Option Lib

variable {A : Type}

/-- A map of at least this many entries drops the expired ones. -/
def sweepAt : ℕ := 10000

/-- The newest change of a key that the host has seen. -/
structure Entry (A : Type) where
  revision : ℕ
  seen : ℕ
  /-- `none` after a delete. -/
  answer : Option A

def Entry.live (ttl now : ℕ) (e : Entry A) : Bool := now - e.seen < ttl

structure KvMemory (A : Type) where
  entries : OrdMap String (Entry A)
  /-- Whether the host holds the bucket, which it does while it watches it. -/
  bucket : Bool

namespace KvMemory

def new : KvMemory A := ⟨.empty, false⟩

variable (m : KvMemory A) (ttl now : ℕ) (key : String)

def setBucket (bucket : Bool) : KvMemory A := { m with bucket }

def clear : KvMemory A := { m with entries := .empty }

/-- The live answer of a key, or the ticket of a read of it. -/
def answer : Except ℕ A :=
  match m.entries.get key with
  | some e =>
    if e.live ttl now then
      match e.answer with
      | some a => .ok a
      | none => .error e.revision
    else .error 0
  | none => .error 0

def ticket : ℕ :=
  match (m.entries.get key).filter fun e => e.live ttl now with
  | some e => e.revision
  | none => 0

def replaced (ticket : ℕ) : Option A :=
  ((m.entries.get key).filter fun e => e.revision = ticket ∧ e.live ttl now).bind Entry.answer

/-- The entries without the expired ones, once there are many. -/
def swept : OrdMap String (Entry A) :=
  if sweepAt ≤ m.entries.size then m.entries.filter fun e => e.live ttl now else m.entries

/-- Keep a change unless a newer one is known. -/
def keepEntry (revision : ℕ) (answer : Option A) : KvMemory A :=
  if m.bucket = false then m
  else
    let entry := ((m.swept ttl now).get key).getD ⟨0, now, none⟩
    -- The watch also delivers the revision this host put.
    let entry := if entry.revision ≤ revision then ⟨revision, now, answer⟩ else entry
    { m with entries := (m.swept ttl now).insert key entry }

def apply (ttl now revision : ℕ) (change : KvChange String A) : KvMemory A :=
  m.keepEntry ttl now change.key revision change.value

variable {m : KvMemory A} {ttl now revision : ℕ} {key key' : String} {e : Entry A} {a : A}
  {ans : Option A}

lemma ticket_cases (m : KvMemory A) (ttl now : ℕ) (key : String) :
    m.ticket ttl now key = 0 ∨
      ∃ e, m.entries.get key = some e ∧ m.ticket ttl now key = e.revision := by
  unfold ticket
  split
  · rename_i e he
    exact .inr ⟨e, (filter_eq_some_iff.1 he).1, rfl⟩
  · exact .inl rfl

lemma replaced_eq_some {t : ℕ} (h : m.replaced ttl now key t = some a) :
    ∃ e, m.entries.get key = some e ∧ e.revision = t ∧ e.answer = some a := by
  obtain ⟨e, he, ha⟩ := bind_eq_some_iff.1 h
  obtain ⟨hget, hrevision⟩ := filter_eq_some_iff.1 he
  exact ⟨e, hget, (of_decide_eq_true hrevision).1, ha⟩

lemma get_swept (h : (m.swept ttl now).get key = some e) : m.entries.get key = some e := by
  unfold swept at h
  split at h
  · rw [OrdMap.get_filter] at h
    exact (filter_eq_some_iff.1 h).1
  · exact h

lemma get_swept_of_live (h : m.entries.get key = some e) (hlive : e.live ttl now = true) :
    (m.swept ttl now).get key = some e := by
  unfold swept
  split
  · rw [OrdMap.get_filter]
    exact filter_eq_some_iff.2 ⟨h, hlive⟩
  · exact h

lemma get_keepEntry_other (hne : key' ≠ key)
    (h : (m.keepEntry ttl now key revision ans).entries.get key' = some e) :
    m.entries.get key' = some e := by
  unfold keepEntry at h
  split at h
  · exact h
  · simp only [OrdMap.get_insert, if_neg hne] at h
    exact get_swept h

lemma get_keepEntry_self (hbucket : m.bucket = true) (ttl now : ℕ) (key : String) (revision : ℕ)
    (ans : Option A) :
    ∃ e, (m.keepEntry ttl now key revision ans).entries.get key = some e ∧
      (e = ⟨revision, now, ans⟩ ∨ m.entries.get key = some e ∧ revision < e.revision) := by
  unfold keepEntry
  rw [if_neg (by simp [hbucket])]
  refine ⟨_, by rw [OrdMap.get_insert, if_pos rfl], ?_⟩
  split
  · exact .inl rfl
  · rename_i hnewer
    cases hget : (m.swept ttl now).get key with
    | none => simp [hget] at hnewer
    | some e =>
      rw [hget, getD_some] at hnewer
      rw [getD_some]
      exact .inr ⟨get_swept hget, by omega⟩

lemma get_keepEntry_of_live (h : m.entries.get key' = some e) (hlive : e.live ttl now = true)
    (hnewer : key' = key → revision < e.revision) :
    (m.keepEntry ttl now key revision ans).entries.get key' = some e := by
  have hswept := get_swept_of_live h hlive
  unfold keepEntry
  split
  · exact h
  · simp only [OrdMap.get_insert]
    split
    · rename_i hkey
      subst hkey
      have hlt := hnewer rfl
      rw [hswept, getD_some, if_neg (by omega)]
    · exact hswept

@[simp] lemma bucket_keepEntry : (m.keepEntry ttl now key revision ans).bucket = m.bucket := by
  unfold keepEntry
  split <;> rfl

end KvMemory

/-! ## Deletions -/

inductive Deletion where
  | key (name : String)
  | under (token : String)
  deriving DecidableEq

/-- The keys a deletion is for. The subjects `token.>` have at least one more token. -/
def Deletion.covers (d : Deletion) (key : String) : Bool :=
  match d with
  | .key name => name = key
  | .under token =>
    (token.toList ++ ['.']).isPrefixOf key.toList && decide (token.length + 1 < key.length)

/-- The keys that `delete_one` deletes: the one key, or the subjects that the bucket holds. -/
def Deletion.keys (bucket : KvBucket String A) : Deletion → List String
  | .key name => [name]
  | .under token => bucket.keys (Deletion.under token).covers

end Wamn.HostMemory
