import Wamn.HostMemory.KvMemory

/-!
# The host's memory of auth facts

The grants of a principal and the status of an environment are kept in the replica of a bucket.
Admitted PATs and active sessions stay in the host that read them, and a change of the identity key
of their principal drops them.
-/

namespace Wamn.HostMemory

open Lib

/-- The roles a principal holds in one tenant, with the permissions of each. -/
structure PrincipalGrants where
  present : Bool
  active : Bool
  user : Option Bool
  roles : OrdMap String (OrdMap String Unit)
  deriving DecidableEq

inductive Answer where
  | principal (grants : Option PrincipalGrants) (provisioned : Bool)
  | environment (inactive : Bool)
  deriving DecidableEq

/-- An authenticated principal, of which the memory reads the id. -/
structure AuthenticatedPrincipal where
  id : String
  patId : Option String
  deriving DecidableEq

def identityToken : String := "=identity"

/-- The key of the grants of a principal in an environment. -/
def principalKey (envKey principal : String) : String := envKey ++ "." ++ principal

def environmentStatusKey (envKey : String) : String := envKey ++ ".environment"

/-- The key that a change of an identity fact of a principal deletes. -/
def identityKey (principal : String) : String := identityToken ++ "." ++ principal

def identityPrincipal (key : String) : Option String :=
  ((identityToken.toList ++ ['.']).isPrefixOf? key.toList).map String.ofList

inductive AuthChange where
  | principal (env name : String)
  | envKey (env : String)
  | identity (name : String)
  deriving DecidableEq

def AuthChange.deletion : AuthChange → Deletion
  | .principal env name => .key (principalKey env name)
  | .identity name => .key (identityKey name)
  -- Every key of the environment: the grants of each principal and the status.
  | .envKey env => .under env

/-- A kept token: the principal a PAT admitted, or an active session. -/
structure Token where
  seen : ℕ
  principal : String
  pat : Option AuthenticatedPrincipal

def Token.live (ttl now : ℕ) (t : Token) : Bool := now - t.seen < ttl

variable {D : Type} [LinearOrder D]

/-- The tokens by digest, and the highest revision of an identity key that the host saw. -/
structure Tokens (D : Type) [LinearOrder D] where
  tokens : OrdMap D Token
  identityRevision : ℕ

structure AuthCache (D : Type) [LinearOrder D] where
  memory : KvMemory Answer
  tokens : Tokens D

structure Put where
  key : String
  ticket : ℕ
  answer : Answer

/-- New grants, with what the replaced answer knew of the user row. -/
def grantsAnswer (grants : PrincipalGrants) (replaced : Option Answer) : Answer :=
  let provisioned := grants.present || match replaced with
    | some (.principal _ provisioned) => provisioned
    | _ => false
  .principal (some grants) provisioned

/-- The answer that a user row exists, next to the grants of the replaced answer. -/
def provisionedAnswer (replaced : Option Answer) : Answer :=
  let grants := match replaced with
    | some (.principal grants _) => grants
    | _ => none
  .principal grants true

namespace AuthCache

def new : AuthCache D := ⟨.new, ⟨.empty, 0⟩⟩

def setBucket (c : AuthCache D) (bucket : Bool) : AuthCache D :=
  { c with memory := c.memory.setBucket bucket }

def clear (c : AuthCache D) : AuthCache D :=
  { memory := c.memory.clear, tokens := { c.tokens with tokens := .empty } }

section Tokens

variable (digest : String → D) (ttl now : ℕ)

variable (c : AuthCache D) (ticket : ℕ)

def pat (token : String) : Option AuthenticatedPrincipal :=
  ((c.tokens.tokens.get (digest token)).filter fun t => t.live ttl now).bind Token.pat

/-- Whether the login or PAT behind a session token is active. -/
def sessionActive (token : String) : Bool :=
  match c.tokens.tokens.get (digest token) with
  | some t => t.live ttl now && t.pat.isNone
  | none => false

def identityTicket : ℕ := c.tokens.identityRevision

/-- Keep a token unless an identity key changed during the read. -/
def keepToken (token principal : String) (pat : Option AuthenticatedPrincipal) : AuthCache D :=
  if c.memory.bucket = false then c
  else if c.tokens.identityRevision ≠ ticket then c
  else
    let tokens := if sweepAt ≤ c.tokens.tokens.size then
      c.tokens.tokens.filter fun t => t.live ttl now else c.tokens.tokens
    { c with tokens :=
      { c.tokens with tokens := tokens.insert (digest token) ⟨now, principal, pat⟩ } }

def keepPat (token : String) (principal : AuthenticatedPrincipal) : AuthCache D :=
  c.keepToken digest ttl now ticket token principal.id (some principal)

def keepSessionActive (token principal : String) : AuthCache D :=
  c.keepToken digest ttl now ticket token principal none

end Tokens

section Facts

variable (ttl now : ℕ)

/-- The grants of a principal, or the ticket of a read of them. -/
def grants (c : AuthCache D) (envKey principal : String) : Except ℕ PrincipalGrants :=
  let key := principalKey envKey principal
  match c.memory.answer ttl now key with
  | .ok (.principal (some grants) _) =>
    if grants.user.isSome then .ok grants else .error (c.memory.ticket ttl now key)
  | .ok _ => .error (c.memory.ticket ttl now key)
  | .error ticket => .error ticket

variable (c : AuthCache D) (envKey principal : String)

def keepGrants (ticket : ℕ) (grants : PrincipalGrants) : Put :=
  let key := principalKey envKey principal
  ⟨key, ticket, grantsAnswer grants (c.memory.replaced ttl now key ticket)⟩

/-- Whether the tenant has the user row of a principal, or the ticket of a read of it. -/
def provisioned : Except ℕ Unit :=
  let key := principalKey envKey principal
  match c.memory.answer ttl now key with
  | .ok (.principal _ true) => .ok ()
  | .ok _ => .error (c.memory.ticket ttl now key)
  | .error ticket => .error ticket

def keepProvisioned (ticket : ℕ) : Put :=
  let key := principalKey envKey principal
  ⟨key, ticket, provisionedAnswer (c.memory.replaced ttl now key ticket)⟩

/-- Whether the environment is inactive, or the ticket of a read of it. -/
def environmentInactive (envKey : String) : Except ℕ Bool :=
  let key := environmentStatusKey envKey
  match c.memory.answer ttl now key with
  | .ok (.environment inactive) => .ok inactive
  | .ok _ => .error (c.memory.ticket ttl now key)
  | .error ticket => .error ticket

def keepEnvironmentInactive (envKey : String) (ticket : ℕ) (inactive : Bool) : Put :=
  ⟨environmentStatusKey envKey, ticket, .environment inactive⟩

def apply (revision : ℕ) (change : KvChange String Answer) : AuthCache D :=
  match identityPrincipal change.key with
  | some principal =>
    { c with tokens :=
      { tokens := c.tokens.tokens.filter fun t => t.principal ≠ principal
        identityRevision := max c.tokens.identityRevision revision } }
  | none => { c with memory := c.memory.apply ttl now revision change }

end Facts

section Tokens

variable {c : AuthCache D} {digest : String → D} {ttl now ticket revision : ℕ}
  {token principal : String} {pat : Option AuthenticatedPrincipal} {d : D} {t : Token}

/-- A kept token was there before, or is that one and no identity key changed during its read. -/
theorem get_keepToken
    (h : (c.keepToken digest ttl now ticket token principal pat).tokens.tokens.get d = some t) :
    d = digest token ∧ t = ⟨now, principal, pat⟩ ∧ c.tokens.identityRevision = ticket ∨
      (c.keepToken digest ttl now ticket token principal pat = c ∨ d ≠ digest token) ∧
        c.tokens.tokens.get d = some t := by
  unfold keepToken at h ⊢
  split at h
  · rename_i hbucket
    exact .inr ⟨.inl (if_pos hbucket), h⟩
  rename_i hbucket
  rw [if_neg hbucket]
  split at h
  · rename_i hticket
    exact .inr ⟨.inl (if_pos hticket), h⟩
  · rename_i hticket
    simp only [OrdMap.get_insert] at h
    split at h
    · rename_i hd
      exact .inl ⟨hd, (Option.some.inj h).symm, not_not.1 hticket⟩
    · rename_i hd
      refine .inr ⟨.inr hd, ?_⟩
      split at h
      · rw [OrdMap.get_filter] at h
        exact (Option.filter_eq_some_iff.1 h).1
      · exact h

lemma get_keepToken_self (hbucket : c.memory.bucket = true) :
    (c.keepToken digest ttl now c.identityTicket token principal pat).tokens.tokens.get
      (digest token) = some ⟨now, principal, pat⟩ := by
  simp [keepToken, identityTicket, hbucket, OrdMap.get_insert]

@[simp] lemma identityRevision_keepToken :
    (c.keepToken digest ttl now ticket token principal pat).tokens.identityRevision =
      c.tokens.identityRevision := by
  unfold keepToken
  split
  · rfl
  · split <;> rfl

@[simp] lemma memory_keepToken :
    (c.keepToken digest ttl now ticket token principal pat).memory = c.memory := by
  unfold keepToken
  split
  · rfl
  · split <;> rfl

variable {change : KvChange String Answer}

lemma get_apply (h : (c.apply ttl now revision change).tokens.tokens.get d = some t) :
    c.tokens.tokens.get d = some t ∧ identityPrincipal change.key ≠ some t.principal := by
  unfold apply at h
  split at h
  · rename_i principal hprincipal
    simp only [OrdMap.get_filter, Option.filter_eq_some_iff, decide_eq_true_eq] at h
    rw [hprincipal]
    exact ⟨h.1, fun heq => h.2 (Option.some.inj heq).symm⟩
  · rename_i hnone
    rw [hnone]
    exact ⟨h, by simp⟩

lemma identityRevision_apply : (c.apply ttl now revision change).tokens.identityRevision =
      if (identityPrincipal change.key).isSome then max c.tokens.identityRevision revision
      else c.tokens.identityRevision := by
  unfold apply
  split <;> rename_i h <;> simp [h]

@[simp] lemma bucket_apply :
    (c.apply ttl now revision change).memory.bucket = c.memory.bucket := by
  unfold apply
  split
  · rfl
  · simp [KvMemory.apply]

end Tokens

end AuthCache

end Wamn.HostMemory
