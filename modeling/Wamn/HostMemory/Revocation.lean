import Wamn.HostMemory.AuthCache
import Wamn.Lib.Transition

/-!
# Tokens of revoked principals

A host keeps the PATs and sessions it read. A change of the identity key of a principal, delivered
by the watch, drops the tokens of the principal, and the highest revision of such a change tells a
read that one came in between. The watch breaks and starts again, and a lost bucket starts its
revisions again from 1.
-/

namespace Wamn.HostMemory.Revocation

open Option List Lib Function

/-- A change of an identity key: the losses before its bucket, its revision there, and the
principal. -/
structure Revoked where
  lifetime : ℕ
  revision : ℕ
  principal : String
  deriving DecidableEq

/-- A read of a PAT or a session: its ticket, and the changes applied when it began. -/
structure Read where
  ticket : ℕ
  known : List Revoked

/-- The watch of a bucket and the revision of an identity key up to which it has delivered. -/
structure Watch where
  lifetime : ℕ
  cursor : ℕ

variable {D : Type} [LinearOrder D]

/-- A host and the buckets, the current one last. Recorded are the identity changes that the host
has applied, and for a kept token those it had applied when its read began. -/
structure World (D : Type) [LinearOrder D] where
  now : ℕ
  lifetime : ℕ
  buckets : ℕ → KvBucket String Answer
  watch : Option Watch
  cache : AuthCache D
  reads : List Read
  applied : List Revoked
  origin : D → List Revoked

def World.start : World D where
  now := 0
  lifetime := 0
  buckets := fun _ => .empty
  watch := none
  cache := .new
  reads := []
  applied := []
  origin := fun _ => []

inductive Action where
  | wait (time : ℕ)
  | write (key : String) (value : Option Answer)
  | expire (key : String)
  /-- The bucket is lost, and identity makes it anew. -/
  | lose
  | breakWatch
  | clear
  | startWatch
  /-- The watch delivers the next change of an identity key. -/
  | deliver
  /-- The watch delivers a change of another key. -/
  | deliverOther (revision : ℕ)
  | begin
  | keepPat (i : ℕ) (token : String) (principal : AuthenticatedPrincipal)
  | keepSessionActive (i : ℕ) (token principal : String)
  deriving DecidableEq

def World.setCurrent (w : World D) (b : KvBucket String Answer) : World D :=
  { w with buckets := update w.buckets w.lifetime b }

/-- The identity change at a revision. The bucket keeps the last change of a key. -/
def identityChange (b : KvBucket String Answer) (revision : ℕ) :
    Option (KvChange String Answer × String) :=
  match b.change revision with
  | some c =>
    if b.last c.key = some revision then (identityPrincipal c.key).map fun p => (c, p) else none
  | none => none

def nextIdentity (b : KvBucket String Answer) (cursor : ℕ) :
    Option (ℕ × KvChange String Answer × String) :=
  (List.range' (cursor + 1) (b.revision - cursor)).findSome? fun revision =>
    (identityChange b revision).map fun found => (revision, found)

/-- The watch delivers the next identity change of its bucket. -/
def World.deliver (ttl : ℕ) (w : World D) : World D :=
  match w.watch with
  | some watch =>
    match nextIdentity (w.buckets watch.lifetime) watch.cursor with
    | some (revision, change, principal) =>
      { w with
        watch := some { watch with cursor := revision }
        cache := w.cache.apply ttl w.now revision change
        applied := ⟨watch.lifetime, revision, principal⟩ :: w.applied }
    | none => w
  | none => w

def World.deliverOther (ttl : ℕ) (w : World D) (revision : ℕ) : World D :=
  match w.watch.bind fun watch => (w.buckets watch.lifetime).change revision with
  | some change =>
    if (identityPrincipal change.key).isSome then w
    else { w with cache := w.cache.apply ttl w.now revision change }
  | none => w

/-- A read is kept, if it is. The origin of the token follows. -/
def World.keep (digest : String → D) (w : World D) (token : String) (read : Read)
    (cache : AuthCache D) : World D :=
  if w.cache.memory.bucket = true ∧ w.cache.identityTicket = read.ticket then
    { w with cache, origin := update w.origin (digest token) read.known }
  else { w with cache }

section

variable (digest : String → D) (ttl : ℕ) (w : World D)

def step : Action → World D
  | .wait time => { w with now := w.now + time }
  | .write key value => w.setCurrent ((w.buckets w.lifetime).write w.now key value)
  | .expire key => w.setCurrent ((w.buckets w.lifetime).expire ttl w.now key)
  | .lose =>
    { w with
      lifetime := w.lifetime + 1
      buckets := update w.buckets (w.lifetime + 1) .empty }
  | .breakWatch => { w with watch := none, cache := w.cache.setBucket false }
  | .clear => { w with cache := w.cache.clear }
  | .startWatch =>
    { w with watch := some ⟨w.lifetime, 0⟩, cache := w.cache.clear.setBucket true }
  | .deliver => w.deliver ttl
  | .deliverOther revision => w.deliverOther ttl revision
  | .begin => { w with reads := w.reads ++ [⟨w.cache.identityTicket, w.applied⟩] }
  | .keepPat i token principal =>
    match w.reads[i]? with
    | some read =>
      w.keep digest token read (w.cache.keepPat digest ttl w.now read.ticket token principal)
    | none => w
  | .keepSessionActive i token principal =>
    match w.reads[i]? with
    | some read =>
      w.keep digest token read
        (w.cache.keepSessionActive digest ttl w.now read.ticket token principal)
    | none => w

/-- The host answers positively for a token of a principal. -/
def Answers (token principal : String) : Prop :=
  (∃ a, w.cache.pat digest ttl w.now token = some a ∧ a.id = principal) ∨
    w.cache.sessionActive digest ttl w.now token = true ∧
      ∃ t, w.cache.tokens.tokens.get (digest token) = some t ∧ t.principal = principal

/-- Every applied change of a principal had been applied when the read behind a positive answer
began. -/
def NoneStale : Prop :=
  ∀ token principal, Answers digest ttl w token principal →
    ∀ d ∈ w.applied, d.principal = principal → d ∈ w.origin (digest token)

/-- An identity change that is delivered for the first time is above every one the host saw. -/
def FirstIsAbove : Action → Prop
  | .deliver => ∀ watch revision change principal, w.watch = some watch →
      nextIdentity (w.buckets watch.lifetime) watch.cursor = some (revision, change, principal) →
        ⟨watch.lifetime, revision, principal⟩ ∉ w.applied →
          w.cache.tokens.identityRevision < revision
  | _ => True

end

/-! ## The watch -/

section Watch

variable {b : KvBucket String Answer} {revision cursor : ℕ} {change : KvChange String Answer}
  {principal : String}

lemma identityChange_eq_some :
    identityChange b revision = some (change, principal) ↔
      b.change revision = some change ∧ b.last change.key = some revision ∧
        identityPrincipal change.key = some principal := by
  unfold identityChange
  split
  · rename_i c hc
    split
    · rename_i hlast
      rw [map_eq_some_iff]
      constructor
      · rintro ⟨p, hp, heq⟩
        obtain ⟨rfl, rfl⟩ := Prod.mk.inj heq
        exact ⟨hc, hlast, hp⟩
      · rintro ⟨hc', -, hp⟩
        obtain rfl := mem_unique hc hc'
        exact ⟨principal, hp, rfl⟩
    · rename_i hlast
      constructor
      · intro h
        cases h
      · rintro ⟨hc', hlast', -⟩
        obtain rfl := mem_unique hc hc'
        exact absurd hlast' hlast
  · rename_i hc
    simp [hc]

lemma nextIdentity_eq_some
    (h : nextIdentity b cursor = some (revision, change, principal)) :
    cursor < revision ∧ revision ≤ b.revision ∧
      identityChange b revision = some (change, principal) ∧
        ∀ r, cursor < r → r < revision → identityChange b r = none := by
  obtain ⟨before, r, rest, hrange, hfound, hbefore⟩ := findSome?_eq_some_iff.1 h
  obtain ⟨found, hchange, heq⟩ := map_eq_some_iff.1 hfound
  obtain ⟨rfl, rfl⟩ := Prod.mk.inj heq
  obtain ⟨k, hk, rfl, hrest⟩ := range'_eq_append_iff.1 hrange
  obtain ⟨n, hn⟩ : ∃ n, b.revision - cursor - k = n + 1 := by
    cases hn : b.revision - cursor - k with
    | zero => simp [hn] at hrest
    | succ n => exact ⟨n, rfl⟩
  rw [hn, range'_succ] at hrest
  have hr : r = cursor + 1 + k := by simpa using (List.cons.inj hrest).1
  refine ⟨by omega, by omega, hchange, fun r' hlow hhigh => ?_⟩
  have hmem : r' ∈ List.range' (cursor + 1) k := mem_range'_1.2 (by omega)
  simpa using hbefore r' hmem

end Watch

lemma deliver_cases (ttl : ℕ) (w : World D) :
    w.deliver ttl = w ∨ ∃ watch revision change principal, w.watch = some watch ∧
      nextIdentity (w.buckets watch.lifetime) watch.cursor = some (revision, change, principal) ∧
        w.deliver ttl =
          { w with
            watch := some { watch with cursor := revision }
            cache := w.cache.apply ttl w.now revision change
            applied := ⟨watch.lifetime, revision, principal⟩ :: w.applied } := by
  unfold World.deliver
  split
  · rename_i watch hwatch
    split
    · rename_i revision change principal hnext
      exact .inr ⟨watch, revision, change, principal, hwatch, hnext, rfl⟩
    · exact .inl rfl
  · exact .inl rfl

/-! ## What is kept -/

section Kept

variable {digest : String → D} {ttl : ℕ} {w : World D}

/-- Kept tokens, and reads whose ticket is still good, know every applied change of their
principal. -/
structure Invariant (digest : String → D) (w : World D) : Prop where
  bucket : w.watch.isSome = true → w.cache.memory.bucket = true
  pat : ∀ {d t a}, w.cache.tokens.tokens.get d = some t → t.pat = some a → t.principal = a.id
  token : ∀ {token t}, w.cache.tokens.tokens.get (digest token) = some t →
    ∀ d ∈ w.applied, d.principal = t.principal → d ∈ w.origin (digest token)
  ticket : ∀ read ∈ w.reads, read.ticket ≤ w.cache.tokens.identityRevision
  known : ∀ read ∈ w.reads, read.ticket = w.cache.tokens.identityRevision →
    ∀ d ∈ w.applied, d ∈ read.known

lemma invariant_start : Invariant digest (World.start : World D) where
  bucket h := by cases h
  pat h := by cases h
  token h := by cases h
  ticket _ h := by cases h
  known _ h := by cases h

variable (hw : Invariant digest w)

include hw

lemma Invariant.token_of_answers {token principal : String}
    (h : Answers digest ttl w token principal) :
    ∃ t, w.cache.tokens.tokens.get (digest token) = some t ∧ t.principal = principal := by
  rcases h with ⟨a, ha, rfl⟩ | ⟨-, ht⟩
  · obtain ⟨t, ht, hpat⟩ := bind_eq_some_iff.1 ha
    have hget := (filter_eq_some_iff.1 ht).1
    exact ⟨t, hget, hw.pat hget hpat⟩
  · exact ht

lemma Invariant.noneStale : NoneStale digest ttl w := by
  intro token principal hanswers d hd hprincipal
  obtain ⟨t, ht, rfl⟩ := hw.token_of_answers hanswers
  exact hw.token ht d hd hprincipal

/-- Only the tokens, the reads and the applied changes matter. -/
theorem Invariant.frame {w' : World D}
    (hwatch : w'.watch.isSome = true → w'.cache.memory.bucket = true)
    (htokens : ∀ {d t}, w'.cache.tokens.tokens.get d = some t →
      w.cache.tokens.tokens.get d = some t)
    (hrevision : w'.cache.tokens.identityRevision = w.cache.tokens.identityRevision)
    (hreads : w'.reads = w.reads) (happlied : w'.applied = w.applied)
    (horigin : w'.origin = w.origin) : Invariant digest w' where
  bucket := hwatch
  pat h := hw.pat (htokens h)
  token h := by
    rw [happlied, horigin]
    exact hw.token (htokens h)
  ticket := by
    rw [hreads, hrevision]
    exact hw.ticket
  known := by
    rw [hreads, hrevision, happlied]
    exact hw.known

/-- A kept token is of a read whose ticket is still good. -/
theorem Invariant.keep {read : Read} (hread : read ∈ w.reads) {token principal : String}
    {pat : Option AuthenticatedPrincipal} (hpat : ∀ a, pat = some a → principal = a.id) :
    Invariant digest (w.keep digest token read
      (w.cache.keepToken digest ttl w.now read.ticket token principal pat)) := by
  by_cases hkept : w.cache.memory.bucket = true ∧ w.cache.identityTicket = read.ticket
  · rw [World.keep, if_pos hkept]
    refine ⟨fun h => ?_, ?_, ?_, fun r hr => ?_, fun r hr => ?_⟩
    · simpa using hkept.1
    · intro d t a ht ha
      rcases AuthCache.get_keepToken ht with ⟨-, rfl, -⟩ | ⟨-, hold⟩
      · exact hpat a ha
      · exact hw.pat hold ha
    · intro token' t ht d hd hprincipal
      by_cases hsame : digest token' = digest token
      · simp only [hsame, update_self]
        exact hw.known read hread hkept.2.symm d hd
      · simp only [update_of_ne hsame]
        rcases AuthCache.get_keepToken ht with ⟨hd, -⟩ | ⟨-, hold⟩
        · exact absurd hd hsame
        · exact hw.token hold d hd hprincipal
    · simpa using hw.ticket r hr
    · simpa using hw.known r hr
  · rw [World.keep, if_neg hkept]
    have hsame : w.cache.keepToken digest ttl w.now read.ticket token principal pat = w.cache := by
      unfold AuthCache.keepToken
      split
      · rfl
      · rename_i hbucket
        have hticket : w.cache.tokens.identityRevision ≠ read.ticket :=
          fun h => hkept ⟨by simpa using hbucket, h⟩
        exact if_pos hticket
    rw [hsame]
    exact hw

lemma Invariant.deliver (habove : FirstIsAbove w .deliver) :
    Invariant digest (w.deliver ttl) := by
  rcases deliver_cases ttl w with heq | ⟨watch, revision, change, principal, hwatch, hnext, heq⟩
  · exact heq.symm ▸ hw
  obtain ⟨-, -, hchange, -⟩ := nextIdentity_eq_some hnext
  obtain ⟨-, -, hprincipal⟩ := identityChange_eq_some.1 hchange
  have hrevision : (w.cache.apply ttl w.now revision change).tokens.identityRevision =
      max w.cache.tokens.identityRevision revision := by
    rw [AuthCache.identityRevision_apply, hprincipal]
    rfl
  rw [heq]
  refine ⟨fun _ => ?_, ?_, ?_, fun read hread => ?_, fun read hread hticket d hd => ?_⟩
  · simpa using hw.bucket (by rw [hwatch]; rfl)
  · intro d t a ht
    exact hw.pat (AuthCache.get_apply ht).1
  · intro token t ht d hd hdt
    obtain ⟨hold, hne⟩ := AuthCache.get_apply ht
    rcases mem_cons.1 hd with rfl | hd
    · exact absurd (hprincipal.trans (congrArg some hdt)) hne
    · exact hw.token hold d hd hdt
  · rw [hrevision]
    exact (hw.ticket read hread).trans (le_max_left _ _)
  · have hle := hw.ticket read hread
    rw [hrevision] at hticket
    have hsame : read.ticket = w.cache.tokens.identityRevision := by omega
    rcases mem_cons.1 hd with rfl | hd
    · -- The ticket is still good, so the change is not above, and was applied before.
      by_contra hnew
      have hfirst : ⟨watch.lifetime, revision, principal⟩ ∉ w.applied :=
        fun hd => hnew (hw.known read hread hsame _ hd)
      have := habove watch revision change principal hwatch hnext hfirst
      omega
    · exact hw.known read hread hsame d hd

lemma Invariant.deliverOther (revision : ℕ) : Invariant digest (w.deliverOther ttl revision) := by
  unfold World.deliverOther
  split
  · rename_i change _
    split
    · exact hw
    · rename_i hother
      refine hw.frame (fun h => ?_) (fun h => (AuthCache.get_apply h).1) ?_ rfl rfl rfl
      · simpa using hw.bucket h
      · rw [AuthCache.identityRevision_apply, if_neg hother]
  · exact hw

lemma Invariant.step {a : Action} (ha : FirstIsAbove w a) :
    Invariant digest (step digest ttl w a) := by
  cases a with
  | wait time | write key value | expire key | lose => exact hw.frame hw.bucket id rfl rfl rfl rfl
  | breakWatch => exact hw.frame (fun h => by cases h) id rfl rfl rfl rfl
  | clear => exact hw.frame hw.bucket (fun h => by cases h) rfl rfl rfl rfl
  | startWatch => exact hw.frame (fun _ => rfl) (fun h => by cases h) rfl rfl rfl rfl
  | deliver => exact hw.deliver ha
  | deliverOther revision => exact hw.deliverOther revision
  | begin =>
    refine ⟨hw.bucket, hw.pat, hw.token, fun read hread => ?_, fun read hread hticket d hd => ?_⟩
    · rcases mem_append.1 hread with hold | hnew
      · exact hw.ticket read hold
      · obtain rfl := mem_singleton.1 hnew
        exact le_rfl
    · rcases mem_append.1 hread with hold | hnew
      · exact hw.known read hold hticket d hd
      · obtain rfl := mem_singleton.1 hnew
        exact hd
  | keepPat i token principal =>
    simp only [Revocation.step]
    split
    · rename_i read hread
      exact hw.keep (mem_of_getElem? hread) fun a ha => by rw [Option.some.inj ha]
    · exact hw
  | keepSessionActive i token principal =>
    simp only [Revocation.step]
    split
    · rename_i read hread
      exact hw.keep (mem_of_getElem? hread) fun a ha => by cases ha
    · exact hw

end Kept

/-! ## One bucket

While the bucket is not lost, the watch has delivered every identity change that the bucket holds up
to the highest revision the host saw, so that a change it has still to deliver is above. -/

section OneBucket

variable {digest : String → D} {ttl : ℕ} {w : World D} {b : KvBucket String Answer}
  {revision : ℕ} {found : KvChange String Answer × String}

lemma identityChange_write {now : ℕ} {key : String} {value : Option Answer}
    (hrevision : revision ≤ b.revision)
    (h : identityChange (b.write now key value) revision = some found) :
    identityChange b revision = some found := by
  obtain ⟨change, principal⟩ := found
  obtain ⟨hchange, hlast, hprincipal⟩ := identityChange_eq_some.1 h
  rw [KvBucket.change_write_of_le hrevision] at hchange
  refine identityChange_eq_some.2 ⟨hchange, ?_, hprincipal⟩
  by_cases hkey : change.key = key
  · have hnew : b.revision + 1 = revision := by simpa [KvBucket.write, hkey] using hlast
    omega
  · simpa [KvBucket.write, hkey] using hlast

lemma identityChange_expire {now : ℕ} {key : String}
    (h : identityChange (b.expire ttl now key) revision = some found) :
    identityChange b revision = some found := by
  obtain ⟨change, principal⟩ := found
  obtain ⟨hchange, hlast, hprincipal⟩ := identityChange_eq_some.1 h
  rw [KvBucket.change_expire] at hchange
  refine identityChange_eq_some.2 ⟨hchange, ?_, hprincipal⟩
  rcases KvBucket.last_expire_cases b ttl now key change.key with hsame | ⟨-, hnone, -⟩
  · exact hsame ▸ hlast
  · rw [hnone] at hlast
    cases hlast

/-- The identity changes that the first bucket holds up to a revision have been applied. -/
def AppliedUpTo (w : World D) (revision : ℕ) : Prop :=
  ∀ r ≤ revision, ∀ change principal,
    identityChange (w.buckets 0) r = some (change, principal) → ⟨0, r, principal⟩ ∈ w.applied

/-- The watch is of the only bucket, and what the host has not applied of it lies above. -/
structure OneBucket (w : World D) : Prop where
  lifetime : w.lifetime = 0
  seen : w.cache.tokens.identityRevision ≤ (w.buckets 0).revision
  applied : AppliedUpTo w w.cache.tokens.identityRevision
  watch : ∀ watch, w.watch = some watch →
    watch.lifetime = 0 ∧ watch.cursor ≤ (w.buckets 0).revision ∧ AppliedUpTo w watch.cursor

lemma oneBucket_start : OneBucket (World.start : World D) where
  lifetime := rfl
  seen := le_rfl
  applied r _ change principal h := by
    have hchange := (identityChange_eq_some.1 h).1
    cases r <;> cases hchange
  watch _ h := by cases h

variable (hw : OneBucket w)

include hw

lemma OneBucket.firstIsAbove (a : Action) : FirstIsAbove w a := by
  cases a <;> simp only [FirstIsAbove]
  intro watch revision change principal hwatch hnext hfirst
  obtain ⟨hzero, -⟩ := hw.watch watch hwatch
  obtain ⟨-, -, hchange, -⟩ := nextIdentity_eq_some hnext
  by_contra hle
  rw [hzero] at hchange hfirst
  exact hfirst (hw.applied revision (by omega) change principal hchange)

/-- The bucket changes, and no new identity change is at a revision it had. -/
theorem OneBucket.setCurrent {b : KvBucket String Answer}
    (hrevision : (w.buckets 0).revision ≤ b.revision)
    (hold : ∀ r ≤ (w.buckets 0).revision, ∀ found, identityChange b r = some found →
      identityChange (w.buckets 0) r = some found) : OneBucket (w.setCurrent b) := by
  have hbucket : (w.setCurrent b).buckets 0 = b := by simp [World.setCurrent, hw.lifetime]
  have happlied : ∀ revision ≤ (w.buckets 0).revision, AppliedUpTo w revision →
      AppliedUpTo (w.setCurrent b) revision := by
    intro revision hle h r hr change principal hchange
    rw [hbucket] at hchange
    exact h r hr change principal (hold r (hr.trans hle) _ hchange)
  refine ⟨hw.lifetime, ?_, happlied _ hw.seen hw.applied, fun watch hwatch => ?_⟩
  · rw [hbucket]
    exact hw.seen.trans hrevision
  · obtain ⟨hzero, hcursor, hupTo⟩ := hw.watch watch hwatch
    rw [hbucket]
    exact ⟨hzero, hcursor.trans hrevision, happlied _ hcursor hupTo⟩

lemma OneBucket.deliver : OneBucket (w.deliver ttl) := by
  rcases deliver_cases ttl w with heq | ⟨watch, revision, change, principal, hwatch, hnext, heq⟩
  · exact heq.symm ▸ hw
  obtain ⟨hzero, hcursor, hupTo⟩ := hw.watch watch hwatch
  obtain ⟨hlow, hhigh, hchange, hnone⟩ := nextIdentity_eq_some hnext
  rw [hzero] at hchange hnone hhigh
  have hrevision : (w.cache.apply ttl w.now revision change).tokens.identityRevision =
      max w.cache.tokens.identityRevision revision := by
    rw [AuthCache.identityRevision_apply, (identityChange_eq_some.1 hchange).2.2]
    rfl
  -- Up to the delivered revision, an identity change was delivered before or is this one.
  have happlied : AppliedUpTo (w.deliver ttl) revision := by
    intro r hr change' principal' hchange'
    rw [heq] at hchange' ⊢
    by_cases hbefore : r ≤ watch.cursor
    · exact mem_cons_of_mem _ (hupTo r hbefore change' principal' hchange')
    · obtain rfl : r = revision := by
        by_contra hne
        have := hnone r (by omega) (by omega)
        rw [this] at hchange'
        cases hchange'
      obtain ⟨-, rfl⟩ := Prod.mk.inj (mem_unique hchange hchange')
      rw [hzero]
      exact mem_cons_self
  have hseen : AppliedUpTo (w.deliver ttl) (max w.cache.tokens.identityRevision revision) := by
    intro r hr change' principal' hchange'
    by_cases hle : r ≤ revision
    · exact happlied r hle change' principal' hchange'
    · rw [heq] at hchange' ⊢
      exact mem_cons_of_mem _ (hw.applied r (by omega) change' principal' hchange')
  rw [heq] at happlied hseen ⊢
  refine ⟨hw.lifetime, ?_, ?_, fun watch' hwatch' => ?_⟩
  · rw [hrevision]
    exact max_le hw.seen hhigh
  · rw [hrevision]
    exact hseen
  · obtain rfl := Option.some.inj hwatch'
    exact ⟨hzero, hhigh, happlied⟩

lemma OneBucket.deliverOther (revision : ℕ) : OneBucket (w.deliverOther ttl revision) := by
  unfold World.deliverOther
  split
  · rename_i change _
    split
    · exact hw
    · rename_i hother
      have hrevision : (w.cache.apply ttl w.now revision change).tokens.identityRevision =
          w.cache.tokens.identityRevision := by
        rw [AuthCache.identityRevision_apply, if_neg hother]
      exact ⟨hw.lifetime, hrevision ▸ hw.seen, hrevision ▸ hw.applied, hw.watch⟩
  · exact hw

lemma OneBucket.keep {token : String} {read : Read} {cache : AuthCache D}
    (hrevision : cache.tokens.identityRevision = w.cache.tokens.identityRevision) :
    OneBucket (w.keep digest token read cache) := by
  unfold World.keep
  split <;> exact ⟨hw.lifetime, hrevision ▸ hw.seen, hrevision ▸ hw.applied, hw.watch⟩

lemma OneBucket.step {a : Action} (ha : a ≠ .lose) : OneBucket (step digest ttl w a) := by
  cases a with
  | wait time => exact ⟨hw.lifetime, hw.seen, hw.applied, hw.watch⟩
  | write key value =>
    simp only [Revocation.step, hw.lifetime]
    refine hw.setCurrent ?_ fun r hr found => identityChange_write hr
    rw [KvBucket.revision_write]
    exact Nat.le_succ _
  | expire key =>
    simp only [Revocation.step, hw.lifetime]
    exact hw.setCurrent KvBucket.revision_expire.ge fun r _ found => identityChange_expire
  | lose => exact absurd rfl ha
  | breakWatch => exact ⟨hw.lifetime, hw.seen, hw.applied, fun _ h => by cases h⟩
  | clear => exact ⟨hw.lifetime, hw.seen, hw.applied, hw.watch⟩
  | startWatch =>
    refine ⟨hw.lifetime, hw.seen, hw.applied, fun watch hwatch => ?_⟩
    obtain rfl := Option.some.inj hwatch
    refine ⟨hw.lifetime, Nat.zero_le _, fun r hr change principal hchange => ?_⟩
    obtain rfl : r = 0 := Nat.le_zero.1 hr
    cases (identityChange_eq_some.1 hchange).1
  | deliver => exact hw.deliver
  | deliverOther revision => exact hw.deliverOther revision
  | begin => exact ⟨hw.lifetime, hw.seen, hw.applied, hw.watch⟩
  | keepPat i token principal | keepSessionActive i token principal =>
    simp only [Revocation.step]
    split
    · exact hw.keep AuthCache.identityRevision_keepToken
    · exact hw

end OneBucket

/-! ## Main result -/

section Missed

variable {digest : String → D} {ttl : ℕ} {w : World D}

lemma bucket_of_watch (hw : Steps (step digest ttl) (fun _ _ => True) World.start w) :
    w.watch.isSome = true → w.cache.memory.bucket = true := by
  refine hw.invariant (I := fun w => w.watch.isSome = true → w.cache.memory.bucket = true)
    (fun w a hw _ => ?_) fun h => by cases h
  cases a with
  | wait | write | expire | lose | clear | begin => exact hw
  | breakWatch => exact fun h => by cases h
  | startWatch => exact fun _ => rfl
  | deliver =>
    simp only [step]
    rcases deliver_cases ttl w with heq | ⟨watch, revision, change, principal, hwatch, -, heq⟩
    · exact heq.symm ▸ hw
    · rw [heq]
      exact fun _ => by simpa using hw (by rw [hwatch]; rfl)
  | deliverOther revision =>
    simp only [step, World.deliverOther]
    split
    · split
      · exact hw
      · exact fun h => by simpa using hw h
    · exact hw
  | keepPat | keepSessionActive =>
    simp only [step]
    split
    · unfold World.keep
      split <;>
      exact fun h => by simpa [AuthCache.keepPat, AuthCache.keepSessionActive] using hw h
    · exact hw

lemma exists_stale (httl : 0 < ttl)
    (hw : w.watch.isSome = true → w.cache.memory.bucket = true) (h : ¬ FirstIsAbove w .deliver) :
    ∃ w', Steps (step digest ttl) (fun _ _ => True) w w' ∧ ¬ NoneStale digest ttl w' := by
  simp only [FirstIsAbove, not_forall] at h
  obtain ⟨watch, revision, change, principal, hwatch, hnext, hfirst, hle⟩ := h
  let began := step digest ttl w .begin
  let told := step digest ttl began .deliver
  let kept := step digest ttl told (.keepSessionActive w.reads.length "token" principal)
  have htold : told =
      { began with
        watch := some { watch with cursor := revision }
        cache := w.cache.apply ttl w.now revision change
        applied := ⟨watch.lifetime, revision, principal⟩ :: w.applied } := by
    show began.deliver ttl = _
    have hwatch' : began.watch = some watch := hwatch
    simp only [World.deliver, hwatch']
    rw [show nextIdentity (began.buckets watch.lifetime) watch.cursor =
      some (revision, change, principal) from hnext]
    rfl
  have hidentity := (identityChange_eq_some.1 (nextIdentity_eq_some hnext).2.2.1).2.2
  have hticket : told.cache.identityTicket = w.cache.identityTicket := by
    rw [htold, AuthCache.identityTicket, AuthCache.identityRevision_apply, hidentity]
    exact max_eq_left (by omega)
  have hbucket : told.cache.memory.bucket = true := by
    rw [htold]
    simpa using hw (by rw [hwatch]; rfl)
  -- The ticket of the read is still good.
  have hkept : kept =
      { told with
        cache := told.cache.keepToken digest ttl told.now told.cache.identityTicket "token"
          principal none
        origin := update told.origin (digest "token") w.applied } := by
    have hread : told.reads[w.reads.length]? = some ⟨told.cache.identityTicket, w.applied⟩ := by
      rw [hticket, htold]
      exact getElem?_concat_length
    show (match told.reads[w.reads.length]? with
      | some read => _
      | none => _) = _
    rw [hread]
    exact if_pos ⟨hbucket, rfl⟩
  refine ⟨kept, ((Steps.refl w).tail trivial).tail trivial |>.tail trivial, fun hnone => ?_⟩
  have hget : kept.cache.tokens.tokens.get (digest "token") = some ⟨told.now, principal, none⟩ := by
    rw [hkept]
    exact AuthCache.get_keepToken_self hbucket
  have hnow : kept.now = told.now := by rw [hkept]
  have hactive : kept.cache.sessionActive digest ttl kept.now "token" = true := by
    simp [AuthCache.sessionActive, hget, Token.live, hnow, httl]
  have horigin := hnone "token" principal (.inr ⟨hactive, _, hget, rfl⟩)
    ⟨watch.lifetime, revision, principal⟩ (by rw [hkept, htold]; exact mem_cons_self) rfl
  rw [hkept] at horigin
  exact hfirst (by simpa using horigin)

end Missed

/-- A revoked login or PAT is not kept, where every identity change that a host is told for the
first time is above those it saw: each positive answer is of a read that began after every change of
its principal was applied. That is so while the bucket is not lost; where it is not so, a token can
be kept from a read that began before the change. -/
theorem revoked_token_is_not_kept (digest : String → D) (ttl : ℕ) :
    (∀ w, Steps (step digest ttl) FirstIsAbove World.start w → NoneStale digest ttl w) ∧
    (∀ w, Steps (step digest ttl) (fun _ a => a ≠ .lose) World.start w → NoneStale digest ttl w) ∧
    (0 < ttl → ∀ w, Steps (step digest ttl) (fun _ _ => True) World.start w →
      ¬ FirstIsAbove w .deliver →
        ∃ w', Steps (step digest ttl) (fun _ _ => True) w w' ∧ ¬ NoneStale digest ttl w') := by
  refine ⟨fun w hw => ?_, fun w hw => ?_, fun httl w hw => exists_stale httl (bucket_of_watch hw)⟩
  · exact (hw.invariant (fun _ _ hI ha => hI.step ha) invariant_start).noneStale
  · have hboth : Invariant digest w ∧ OneBucket w :=
      hw.invariant (I := fun w => Invariant digest w ∧ OneBucket w)
        (fun _ _ hI ha => ⟨hI.1.step (hI.2.firstIsAbove _), hI.2.step ha⟩)
        ⟨invariant_start, oneBucket_start⟩
    exact hboth.1.noneStale

namespace Sample

def after (actions : List Action) : World String := actions.foldl (step id 60) World.start

/-- A host watches the bucket and applies a change of the identity key of a principal. -/
def toldOf (principal : String) : List Action :=
  [.startWatch, .write (identityKey principal) none, .deliver]

/-- A session that is read after the logout was applied is kept, of a read that knew of it. -/
theorem session_after_logout_is_kept :
    Answers id 60 (after (toldOf "ann" ++ [.begin, .keepSessionActive 0 "t" "ann"])) "t" "ann" ∧
      ⟨0, 1, "ann"⟩ ∈
        (after (toldOf "ann" ++ [.begin, .keepSessionActive 0 "t" "ann"])).origin "t" := by
  have hrun : Steps (step id 60) (fun _ a => a ≠ .lose) World.start
      (after (toldOf "ann" ++ [.begin, .keepSessionActive 0 "t" "ann"])) :=
    Steps.foldl _ _ fun _ a ha => by
      rintro rfl
      exact absurd ha (by decide)
  have hanswers :
      Answers id 60 (after (toldOf "ann" ++ [.begin, .keepSessionActive 0 "t" "ann"])) "t" "ann" :=
    .inr ⟨by decide +kernel, ⟨0, "ann", none⟩, by rfl, rfl⟩
  refine ⟨hanswers, ?_⟩
  exact (revoked_token_is_not_kept id 60).2.1 _ hrun "t" "ann" hanswers ⟨0, 1, "ann"⟩
    (by decide +kernel) rfl

/-- A host loses the bucket and its watch starts again. A session is read, its principal logged out,
and the host keeps it: the new revision is not above the old one it saw. -/
def restarted : List Action :=
  toldOf "bob" ++ [.lose, .breakWatch, .clear, .startWatch, .begin,
    .write (identityKey "ann") none, .deliver, .keepSessionActive 0 "t" "ann"]

theorem revocation_after_a_restart_is_missed :
    ¬ ∀ w : World String, Steps (step id 60) (fun _ _ => True) World.start w →
      NoneStale id 60 w := by
  intro hall
  have hrun : Steps (step id 60) (fun _ _ => True) World.start (after restarted) :=
    Steps.foldl _ _ fun _ _ _ => trivial
  have hanswers : Answers id 60 (after restarted) "t" "ann" :=
    .inr ⟨by decide +kernel, ⟨0, "ann", none⟩, by rfl, rfl⟩
  have horigin := hall _ hrun "t" "ann" hanswers ⟨1, 1, "ann"⟩ (by decide +kernel) rfl
  exact absurd horigin (by decide +kernel)

end Sample

end Wamn.HostMemory.Revocation
