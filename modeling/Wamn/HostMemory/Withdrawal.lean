import Wamn.HostMemory.World

/-!
# Facts that a change withdraws

A deletion of one key writes a mark, which refuses every put with an older ticket and reaches every
host after what it withdraws. A deletion under a token deletes only the keys that the bucket holds:
the fact of another key stays withdrawn only if no read of it took the ticket 0 before the commit,
and no host answers it or will be told it.
-/

namespace Wamn.HostMemory

open Nat List Lib Function

variable {H A : Type}

/-! ## Barriers

Once a key of a change is dealt with, a barrier stands for the key: a revision `m` before which lies
everything of the key that was read before the change, a position `p` from which on a host has no
such thing left to answer, and a time `E` before which the bucket does not lose its change of the
key. After a delete these are the revision of the mark, that revision, and when the mark expires. -/

variable (ttl : ℕ) (w : World H A) (c : ℕ) (key : String) (m p E : ℕ)

structure BucketBarrier : Prop where
  committed : c ≤ w.commits
  mark : p = 0 ∨
    p = m ∧ ∃ change, w.bucket.change m = some change ∧ change.key = key ∧ change.value = none
  bound : m ≤ w.bucket.revision + 1
  stale : ∀ revision, w.Stale c key revision → revision < m
  last : ∀ r, w.bucket.last key = some r → m ≤ r
  lost : w.bucket.last key = none → E ≤ w.now
  age : ∀ r change, m ≤ r → w.bucket.change r = some change → E ≤ change.written + ttl
  young : E ≤ w.now + ttl

/-- A host's reads before the change hold a ticket that the bucket no longer takes; from the
position on, no stale answer is left to deliver, to answer or to keep. -/
structure HostBarrier (host : Host A) : Prop where
  readings : ∀ r ∈ host.readings, r.key = key →
    ¬ r.ReadBefore c ∨ r.ticket < m ∧ (r.ticket = 0 → r.began + ttl ≤ E)
  delivered : p ≤ host.position → ∀ revision, w.Stale c key revision → revision ≤ host.position
  entries : p ≤ host.position → ∀ e, host.memory.entries.get key = some e → e.answer.isSome = true →
    e.live ttl w.now = true → c ≤ w.readAt e.revision
  stored : p ≤ host.position → ∀ r ∈ host.readings, r.key = key → ∀ revision answer,
    r.phase = .stored revision answer → w.readAt revision < c → w.now < r.began + ttl →
      ∃ e, host.memory.entries.get key = some e ∧ revision < e.revision ∧ r.began ≤ e.seen

/-- A barrier for a key against what was read before a change. -/
structure Barrier : Prop where
  bucket : BucketBarrier ttl w c key m p E
  hosts : ∀ h, HostBarrier ttl w c key m p E (w.hosts h)

section Barriers

variable {ttl c m p E : ℕ} {key : String} {w w' : World H A} {h : H} {host : Host A}
  {r : Reading A} {i : ℕ}

lemma Entry.live_of_later {now now' : ℕ} {e : Entry A} (hnow : now ≤ now')
    (h : e.live ttl now' = true) : e.live ttl now = true := by
  simp only [Entry.live, decide_eq_true_eq] at h ⊢
  omega

/-- The barrier in a host does not depend on what the others do. -/
theorem HostBarrier.frame (hb : HostBarrier ttl w c key m p E host)
    (hsound : HostSound w.bucket w.now host) (hnow : w.now ≤ w'.now)
    (hread : ∀ revision ≤ w.bucket.revision, w'.readAt revision = w.readAt revision)
    (hstale : ∀ revision, w'.Stale c key revision → w.Stale c key revision) :
    HostBarrier ttl w' c key m p E host where
  readings := hb.readings
  delivered hp revision hrevision := hb.delivered hp revision (hstale revision hrevision)
  entries hp e he hanswer hlive := by
    obtain ⟨change, hchange, -⟩ := hsound.entry he
    rw [hread _ (KvBucket.le_revision hchange).2]
    exact hb.entries hp e he hanswer (Entry.live_of_later hnow hlive)
  stored hp r hr hkey revision answer hphase hbefore hlate := by
    obtain ⟨change, hchange, -⟩ := hsound.stored r hr revision answer hphase
    rw [hread _ (KvBucket.le_revision hchange).2] at hbefore
    exact hb.stored hp r hr hkey revision answer hphase hbefore (hnow.trans_lt hlate)

/-- The barrier in the bucket stays while only the time and the commits go on. -/
theorem BucketBarrier.frame (hb : BucketBarrier ttl w c key m p E)
    (hbucket : w'.bucket = w.bucket) (hread : w'.readAt = w.readAt) (hnow : w.now ≤ w'.now)
    (hcommits : w.commits ≤ w'.commits) :
    (∀ revision, w'.Stale c key revision → w.Stale c key revision) ∧
      BucketBarrier ttl w' c key m p E := by
  have hstale : ∀ revision, w'.Stale c key revision → w.Stale c key revision := by
    intro revision hrevision
    simpa only [World.Stale, hbucket, hread] using hrevision
  refine ⟨hstale, hb.committed.trans hcommits, ?_, ?_, fun r hr => hb.stale r (hstale r hr), ?_, ?_,
    ?_, hb.young.trans (Nat.add_le_add_right hnow ttl)⟩
  all_goals rw [hbucket]
  · exact hb.mark
  · exact hb.bound
  · exact hb.last
  · exact fun hnone => (hb.lost hnone).trans hnow
  · exact hb.age

lemma Barrier.frame (hb : Barrier ttl w c key m p E) (hsound : Sound ttl w)
    (hbucket : w'.bucket = w.bucket) (hread : w'.readAt = w.readAt) (hhosts : w'.hosts = w.hosts)
    (hnow : w.now ≤ w'.now) (hcommits : w.commits ≤ w'.commits) :
    Barrier ttl w' c key m p E := by
  obtain ⟨hstale, hbucket⟩ := hb.bucket.frame hbucket hread hnow hcommits
  refine ⟨hbucket, fun h => ?_⟩
  rw [hhosts]
  exact (hb.hosts h).frame (hsound.hosts h) hnow (fun revision _ => by rw [hread]) hstale

/-- A write that puts nothing old behind the barrier leaves it. -/
theorem BucketBarrier.write (hb : BucketBarrier ttl w c key m p E) (w' : World H A)
    {key' : String} {value : Option A} (hbucket : w'.bucket = w.bucket.write w.now key' value)
    (hread : ∀ revision ≤ w.bucket.revision, w'.readAt revision = w.readAt revision)
    (hfresh : key' = key → value.isSome = true → c ≤ w'.readAt (w.bucket.revision + 1))
    (hnow : w'.now = w.now) (hcommits : w'.commits = w.commits) :
    (∀ revision, w'.Stale c key revision → w.Stale c key revision) ∧
      BucketBarrier ttl w' c key m p E := by
  have hstale : ∀ revision, w'.Stale c key revision → w.Stale c key revision := by
    rintro revision ⟨change, hchange, hkey, hvalue, hbefore⟩
    rw [hbucket] at hchange
    rcases KvBucket.change_write_eq_some.1 hchange with ⟨rfl, rfl⟩ | hold
    · exact absurd (hfresh hkey hvalue) (by omega)
    · rw [hread _ (KvBucket.le_revision hold).2] at hbefore
      exact ⟨change, hold, hkey, hvalue, hbefore⟩
  have hrevision : w'.bucket.revision = w.bucket.revision + 1 := by
    rw [hbucket, KvBucket.revision_write]
  refine ⟨hstale, hcommits ▸ hb.committed, ?_, by have := hb.bound; omega,
    fun r hr => hb.stale r (hstale r hr), ?_, ?_, ?_, hnow ▸ hb.young⟩
  · refine hb.mark.imp id fun ⟨hp, change, hchange, hrest⟩ => ⟨hp, change, ?_, hrest⟩
    rw [hbucket]
    exact KvBucket.change_write_eq_some.2 (.inr hchange)
  · intro r hr
    rw [hbucket] at hr
    by_cases hkey : key = key'
    · subst hkey
      obtain rfl : w.bucket.revision + 1 = r := by simpa [KvBucket.write] using hr
      exact hb.bound
    · exact hb.last r (by simpa [KvBucket.write, hkey] using hr)
  · intro hnone
    rw [hbucket] at hnone
    by_cases hkey : key = key'
    · simp [KvBucket.write, hkey] at hnone
    · rw [hnow]
      exact hb.lost (by simpa [KvBucket.write, hkey] using hnone)
  · intro r change hmr hchange
    rw [hbucket] at hchange
    rcases KvBucket.change_write_eq_some.1 hchange with ⟨-, rfl⟩ | hold
    · exact hb.young
    · exact hb.age r change hmr hold

lemma Barrier.delete (hb : Barrier ttl w c key m p E) (hsound : Sound ttl w) (c' : ℕ) :
    Barrier ttl (w.delete c') c key m p E := by
  rcases delete_cases w c' with heq | ⟨key', keys, -, heq⟩
  · exact heq.symm ▸ hb
  · obtain ⟨hstale, hbucket⟩ := hb.bucket.write (w.delete c') (by rw [heq])
      (fun _ _ => by rw [heq]) (fun _ h => by cases h) (by rw [heq]) (by rw [heq])
    refine ⟨hbucket, fun h => ?_⟩
    rw [show (w.delete c').hosts = w.hosts by rw [heq]]
    exact (hb.hosts h).frame (hsound.hosts h) (by rw [heq]) (fun _ _ => by rw [heq]) hstale

lemma Barrier.expire (hb : Barrier ttl w c key m p E) (hsound : Sound ttl w) (key' : String) :
    Barrier ttl { w with bucket := w.bucket.expire ttl w.now key' } c key m p E := by
  have hstale : ∀ revision,
      World.Stale { w with bucket := w.bucket.expire ttl w.now key' } c key revision →
        w.Stale c key revision := by
    intro revision hrevision
    simpa only [World.Stale, KvBucket.change_expire] using hrevision
  refine ⟨?_, fun h => (hb.hosts h).frame (hsound.hosts h) le_rfl (fun _ _ => rfl) hstale⟩
  have hb := hb.bucket
  refine ⟨hb.committed, ?_, ?_, fun r hr => hb.stale r (hstale r hr), ?_, ?_, ?_, hb.young⟩
  · simpa only [KvBucket.change_expire] using hb.mark
  · simpa only [KvBucket.revision_expire] using hb.bound
  · intro r hr
    rcases KvBucket.last_expire_cases w.bucket ttl w.now key' key with hsame | ⟨-, hnone, -⟩
    · exact hb.last r (hsame ▸ hr)
    · exact absurd (hnone.symm.trans hr) (by simp)
  · intro hnone
    rcases KvBucket.last_expire_cases w.bucket ttl w.now key' key with hsame |
      ⟨rfl, -, r, change, hlast, hchange, hold⟩
    · exact hb.lost (hsame ▸ hnone)
    · exact (hb.age r change (hb.last r hlast) hchange).trans hold
  · simpa only [KvBucket.change_expire] using hb.age

lemma HostBarrier.withReadings (hb : HostBarrier ttl w c key m p E host)
    {readings : List (Reading A)}
    (hreadings : ∀ r ∈ readings, r ∈ host.readings ∨ (r.key = key →
      (¬ r.ReadBefore c ∨ r.ticket < m ∧ (r.ticket = 0 → r.began + ttl ≤ E)) ∧
        ∀ revision answer, r.phase = .stored revision answer → c ≤ w.readAt revision)) :
    HostBarrier ttl w c key m p E { host with readings } where
  readings r hr hkey := (hreadings r hr).elim (fun hr => hb.readings r hr hkey) fun h => (h hkey).1
  delivered := hb.delivered
  entries := hb.entries
  stored hp r hr hkey revision answer hphase hbefore := by
    rcases hreadings r hr with hold | hnew
    · exact hb.stored hp r hold hkey revision answer hphase hbefore
    · exact absurd ((hnew hkey).2 revision answer hphase) (by omega)

/-- A host may keep a change unless the change is stale and nothing newer is known. -/
theorem HostBarrier.keepEntry (hb : HostBarrier ttl w c key m p E host)
    (hsound : HostSound w.bucket w.now host) (key' : String) (revision : ℕ) (ans : Option A)
    (hkeep : key' = key → ans.isSome = true → p ≤ host.position → w.readAt revision < c →
      ∃ e, host.memory.entries.get key = some e ∧ e.live ttl w.now = true ∧
        revision < e.revision) :
    HostBarrier ttl w c key m p E
      { host with memory := host.memory.keepEntry ttl w.now key' revision ans } where
  readings := hb.readings
  delivered := hb.delivered
  entries hp e he hanswer hlive := by
    by_cases hkey : key' = key
    · subst hkey
      obtain ⟨e', he', hcases⟩ :=
        KvMemory.get_keepEntry_self hsound.watching ttl w.now key' revision ans
      obtain rfl := Option.mem_unique he he'
      rcases hcases with rfl | ⟨hold, -⟩
      · by_contra hbefore
        obtain ⟨e₀, hget, hlive₀, hnewer⟩ := hkeep rfl hanswer hp (by simpa using hbefore)
        obtain rfl := Option.some.inj (he'.symm.trans
          (KvMemory.get_keepEntry_of_live hget hlive₀ fun _ => hnewer))
        exact absurd hnewer (lt_irrefl _)
      · exact hb.entries hp e hold hanswer hlive
    · exact hb.entries hp e (KvMemory.get_keepEntry_other (Ne.symm hkey) he) hanswer hlive
  stored hp r hr hkey revision' answer hphase hbefore hlate := by
    obtain ⟨e, hget, hnewer, hseen⟩ := hb.stored hp r hr hkey revision' answer hphase hbefore hlate
    have hbegan := hsound.began r hr
    have hlive : e.live ttl w.now = true := by
      simp only [Entry.live, decide_eq_true_eq]
      omega
    by_cases hstays : key = key' → revision < e.revision
    · exact ⟨e, KvMemory.get_keepEntry_of_live hget hlive hstays, hnewer, hseen⟩
    · -- The entry gives way to the change, which is at least as new.
      obtain ⟨rfl, hle⟩ := Classical.not_imp.1 hstays
      obtain ⟨e', he', hcases⟩ := KvMemory.get_keepEntry_self hsound.watching ttl w.now key revision
        ans
      refine ⟨e', he', ?_⟩
      rcases hcases with rfl | ⟨hold, hlt⟩
      · exact ⟨by show revision' < revision; omega, hbegan⟩
      · obtain rfl := Option.mem_unique hget hold
        exact absurd hlt hle

lemma Barrier.not_readBefore (hb : Barrier ttl w c key m p E)
    (hr : r ∈ (w.hosts h).readings) (hkey : r.key = key)
    (hlast : w.bucket.lastRevision key = r.ticket) (hlate : w.now < r.began + ttl) :
    ¬ r.ReadBefore c := by
  refine ((hb.hosts h).readings r hr hkey).resolve_right fun ⟨hticket, hzero⟩ => ?_
  unfold KvBucket.lastRevision at hlast
  cases hheld : w.bucket.last key with
  | none =>
    rw [hheld] at hlast
    have hE := hb.bucket.lost hheld
    have hbegan := hzero hlast.symm
    omega
  | some r' =>
    rw [hheld] at hlast
    have hm := hb.bucket.last r' hheld
    have hr' : r' = r.ticket := hlast
    omega

/-- The mark of a delete, when it is delivered, takes the place of every stale answer. -/
theorem Barrier.hostBarrier_of_mark (hb : Barrier ttl w c key m p E) (hsound : Sound ttl w)
    (hp : p = (w.hosts h).position + 1) {change : KvChange String A}
    (hchange : w.bucket.change ((w.hosts h).position + 1) = some change) :
    HostBarrier ttl w c key m p E
      { w.hosts h with
        memory := (w.hosts h).memory.keepEntry ttl w.now change.key ((w.hosts h).position + 1)
          change.value
        position := (w.hosts h).position + 1 } := by
  obtain ⟨hm, mark, hmark, hkey, hvalue⟩ := hb.bucket.mark.resolve_left (by omega)
  obtain rfl : mark = change := by
    rw [← hm, hp, hchange] at hmark
    exact (Option.some.inj hmark).symm
  have hhost := hsound.hosts h
  obtain ⟨e, hget, hcases⟩ := KvMemory.get_keepEntry_self hhost.watching ttl w.now mark.key
    ((w.hosts h).position + 1) mark.value
  rw [hkey] at hget hcases
  refine ⟨(hb.hosts h).readings, fun _ revision hstale => ?_, fun _ e' he' hanswer _ => ?_, ?_⟩
  · have := hb.bucket.stale revision hstale
    show revision ≤ (w.hosts h).position + 1
    omega
  · rw [hkey] at he'
    obtain rfl := Option.mem_unique hget he'
    rcases hcases with rfl | ⟨hold, hnewer⟩
    · rw [hvalue] at hanswer
      cases hanswer
    · obtain ⟨change', hchange', hkey', hvalue', -⟩ := hhost.entry hold
      by_contra hbefore
      have := hb.bucket.stale _ ⟨change', hchange', hkey', by rw [hvalue']; exact hanswer,
        by omega⟩
      omega
  · intro _ r hr hrkey revision answer hphase hbefore hlate
    obtain ⟨change', hchange', hkey', hvalue', hwritten⟩ := hhost.stored r hr _ _ hphase
    have hstale := hb.bucket.stale revision
      ⟨change', hchange', hkey'.trans hrkey, by rw [hvalue']; rfl, hbefore⟩
    refine ⟨e, by rw [hkey]; exact hget, ?_⟩
    rcases hcases with rfl | ⟨hold, hnewer⟩
    · exact ⟨by show revision < (w.hosts h).position + 1; omega, hhost.began r hr⟩
    · -- The newer change was written after the put that the host has still to keep.
      obtain ⟨newer, hnewerChange, -, -, hseen⟩ := hhost.entry hold
      have := hsound.bucket.ordered hchange' hnewerChange (by omega)
      exact ⟨by omega, by omega⟩

lemma barrier_of_delete (hsound : Sound ttl w) (hc : c ≤ w.commits) {keys : List String}
    (hkeys : (w.writers c).keys = key :: keys) :
    Barrier ttl (w.delete c) c key (w.bucket.revision + 1) (w.bucket.revision + 1)
      (w.now + ttl) := by
  obtain ⟨key', keys', hkeys', heq⟩ : ∃ key' keys', (w.writers c).keys = key' :: keys' ∧
      w.delete c = { w with
        bucket := w.bucket.write w.now key' none
        writers := update w.writers c
          { w.writers c with keys := keys', upTo := w.bucket.revision + 1 } } := by
    refine (delete_cases w c).resolve_left fun hsame => ?_
    have hrevision : (w.delete c).bucket.revision = w.bucket.revision + 1 := by
      simp [World.delete, hkeys, KvBucket.delete, KvBucket.revision_write]
    rw [hsame] at hrevision
    omega
  obtain ⟨rfl, rfl⟩ := List.cons.inj (hkeys.symm.trans hkeys')
  rw [heq]
  have hmark : (w.bucket.write w.now key none).change (w.bucket.revision + 1) =
      some ⟨key, none, w.now⟩ := KvBucket.change_write_eq_some.2 (.inl ⟨rfl, rfl⟩)
  refine ⟨⟨hc, .inr ⟨rfl, _, hmark, rfl, rfl⟩, ?_, ?_, ?_, ?_, ?_, le_rfl⟩, fun h => ?_⟩
  · rw [KvBucket.revision_write]
    omega
  · rintro revision ⟨change, hchange, -, hvalue, -⟩
    rcases KvBucket.change_write_eq_some.1 hchange with ⟨-, rfl⟩ | hold
    · cases hvalue
    · have := (KvBucket.le_revision hold).2
      omega
  · intro r hr
    simp only [KvBucket.write, update_self, Option.some.injEq] at hr
    omega
  · intro hnone
    simp [KvBucket.write] at hnone
  · intro r change hr hchange
    rcases KvBucket.change_write_eq_some.1 hchange with ⟨-, rfl⟩ | hold
    · exact le_rfl
    · have := (KvBucket.le_revision hold).2
      omega
  · have hhost := hsound.hosts h
    have hposition : ¬ w.bucket.revision + 1 ≤ (w.hosts h).position := by
      have := hhost.position
      omega
    refine ⟨fun r hr _ => .inr ⟨?_, fun _ => ?_⟩, fun hp => absurd hp hposition,
      fun hp => absurd hp hposition, fun hp => absurd hp hposition⟩
    · have := hhost.ticket r hr
      omega
    · have := hhost.began r hr
      omega

lemma barrier_of_settled (hsound : Sound ttl w) (hc : c ≤ w.commits)
    (hlast : w.bucket.last key = none) (hsettled : Settled ttl w c key) :
    Barrier ttl w c key (w.bucket.revision + 1) 0 w.now := by
  refine ⟨⟨hc, .inl rfl, le_rfl, ?_, ?_, fun _ => le_rfl, fun r change hr hchange => ?_,
    le_add_right _ _⟩, fun h => ?_⟩
  · rintro revision ⟨change, hchange, -⟩
    have := (KvBucket.le_revision hchange).2
    omega
  · intro r hr
    rw [hlast] at hr
    cases hr
  · have := (KvBucket.le_revision hchange).2
    omega
  have hhost := hsound.hosts h
  refine ⟨fun r hr hkey => ?_, fun _ => hsettled.delivered h, ?_, ?_⟩
  · have hticket := hhost.ticket r hr
    by_cases hlate : r.ticket = 0 ∧ w.now < r.began + ttl
    · exact .inl (hsettled.readings h r hr hkey hlate.1 hlate.2)
    · exact .inr ⟨by omega, fun hzero => by omega⟩
  · exact fun _ e he hanswer hlive => hsettled.answers h _ ⟨e, he, hlive, hanswer, rfl⟩
  · -- A put of the key that is still to be kept has expired in the bucket, so it is not timely.
    intro _ r hr hkey revision answer hphase hbefore hlate
    obtain ⟨change, hchange, hchangeKey, -, hwritten⟩ := hhost.stored r hr _ _ hphase
    have := hsound.bucket.lost hlast hchange (hchangeKey.trans hkey)
    omega

variable [DecidableEq H]

variable (hb : Barrier ttl w c key m p E) (hsound : Sound ttl w)

include hb hsound

lemma Barrier.setHost (hnew : Sound ttl (w.setHost h host))
    (hhost : HostBarrier ttl w c key m p E host) :
    Barrier ttl (w.setHost h host) c key m p E := by
  have hhostSound : HostSound w.bucket w.now host := by simpa [World.setHost] using hnew.hosts h
  obtain ⟨hstale, hbucket⟩ :=
    hb.bucket.frame (show (w.setHost h host).bucket = w.bucket from rfl) rfl le_rfl le_rfl
  refine ⟨hbucket, forall_setHost (fun h' _ => ?_) ?_⟩
  · exact (hb.hosts h').frame (hsound.hosts h') le_rfl (fun _ _ => rfl) hstale
  · exact hhost.frame hhostSound le_rfl (fun _ _ => rfl) hstale

lemma Barrier.dropReading : Barrier ttl (w.dropReading h i) c key m p E :=
  hb.setHost hsound hsound.dropReading
    ((hb.hosts h).withReadings fun _ hr => .inl (mem_of_mem_eraseIdx hr))

/-- A read may go on if what it now has is not of before the change, or can no longer be put. -/
theorem Barrier.setReading (hr : r ∈ (w.hosts h).readings) {phase : Phase A}
    (hphase : ∀ revision answer, phase ≠ .stored revision answer)
    (hread : r.key = key → ¬ Reading.ReadBefore c { r with phase } ∨
      r.ticket < m ∧ (r.ticket = 0 → r.began + ttl ≤ E)) :
    Barrier ttl (w.setReading h i { r with phase }) c key m p E := by
  refine hb.setHost hsound (hsound.setReading hr hphase)
    ((hb.hosts h).withReadings fun r' hr' => ?_)
  rcases mem_readings_set hr' with hold | rfl
  · exact .inl hold
  · exact .inr fun hkey => ⟨hread hkey,
      fun revision answer hstored => absurd hstored (hphase revision answer)⟩

lemma Barrier.ticket (key' : String) : Barrier ttl (w.ticket ttl h key') c key m p E := by
  refine hb.setHost hsound hsound.ticket ((hb.hosts h).withReadings fun r hr => ?_)
  rcases mem_append.1 hr with hold | hnew
  · exact .inl hold
  · obtain rfl := mem_singleton.1 hnew
    exact .inr fun _ => ⟨.inl id, fun _ _ hphase => by cases hphase⟩

lemma Barrier.send (hr : r ∈ (w.hosts h).readings) {readAt : ℕ} {merge : Option A → A}
    (hphase : r.phase = .fetched readAt merge) :
    Barrier ttl (w.send ttl h i r readAt merge) c key m p E := by
  have hread : r.key = key → c ≤ readAt ∨
      r.ticket < m ∧ (r.ticket = 0 → r.began + ttl ≤ E) := by
    intro hkey
    refine ((hb.hosts h).readings r hr hkey).imp (fun hafter => ?_) id
    simpa [Reading.ReadBefore, hphase] using hafter
  unfold World.send
  split
  · exact hb.dropReading hsound
  · split
    · rename_i old hold
      refine hb.setReading hsound hr (fun _ _ hstored => by cases hstored) fun hkey => ?_
      obtain ⟨e, he, hticket, hanswer⟩ := KvMemory.replaced_eq_some hold
      obtain ⟨change, hchange, hchangeKey, hvalue, -⟩ := (hsound.hosts h).entry he
      by_cases hbefore : w.readAt r.ticket < c
      · -- The replaced answer lies before the barrier, and so does the ticket.
        rw [hticket] at hchange
        have hstale : w.Stale c key r.ticket :=
          ⟨change, hchange, hchangeKey.trans hkey, by rw [hvalue, hanswer]; rfl, hbefore⟩
        have hpos := (KvBucket.le_revision hchange).1
        exact .inr ⟨hb.bucket.stale _ hstale, fun hzero => by omega⟩
      · refine (hread hkey).imp (fun hafter => ?_) id
        simp only [Reading.ReadBefore]
        omega
    · refine hb.setReading hsound hr (fun _ _ hstored => by cases hstored) fun hkey => ?_
      refine (hread hkey).imp (fun hafter => ?_) id
      simpa [Reading.ReadBefore] using hafter

lemma Barrier.update (hr : r ∈ (w.hosts h).readings) (hlate : w.now < r.began + ttl) {readAt : ℕ}
    {answer : A} (hphase : r.phase = .sent readAt answer) :
    Barrier ttl (w.update h i r readAt answer) c key m p E := by
  rcases update_cases w h i r readAt answer with heq | ⟨hlast, heq⟩
  · exact heq ▸ hb.dropReading hsound
  have hfresh : r.key = key → c ≤ readAt := by
    intro hkey
    have := hb.not_readBefore hr hkey (hkey ▸ hlast) hlate
    simpa [Reading.ReadBefore, hphase] using this
  have hread : ∀ revision ≤ w.bucket.revision,
      (w.update h i r readAt answer).readAt revision = w.readAt revision := by
    intro revision hle
    rw [heq]
    exact update_of_ne (by omega) _ _
  have hnew : (w.update h i r readAt answer).readAt (w.bucket.revision + 1) = readAt := by
    rw [heq]
    exact update_self _ _ _
  obtain ⟨hstale, hbucket⟩ := hb.bucket.write (w.update h i r readAt answer) (by rw [heq]) hread
    (fun hkey _ => hnew.symm ▸ hfresh hkey) (by rw [heq]; rfl) (by rw [heq]; rfl)
  refine ⟨hbucket, ?_⟩
  have hframe : ∀ h', HostBarrier ttl (w.update h i r readAt answer) c key m p E (w.hosts h') :=
    fun h' => (hb.hosts h').frame (hsound.hosts h') (by rw [heq]; rfl) hread hstale
  have hhosts : (w.update h i r readAt answer).hosts = (w.setReading h i
      { r with phase := .stored (w.bucket.revision + 1) answer }).hosts := by
    rw [heq]
  rw [hhosts]
  refine forall_setHost (fun h' _ => hframe h') ((hframe h).withReadings fun r' hr' => ?_)
  rcases mem_readings_set hr' with hold | rfl
  · exact .inl hold
  · refine .inr fun hkey => ⟨.inl id, fun revision answer' hstored => ?_⟩
    cases hstored
    exact hnew.symm ▸ hfresh hkey

lemma Barrier.keep (hr : r ∈ (w.hosts h).readings) (hlate : w.now < r.began + ttl) {revision : ℕ}
    {answer : A} (hphase : r.phase = .stored revision answer) :
    Barrier ttl (w.keep ttl h i r revision answer) c key m p E := by
  refine hb.setHost hsound (hsound.keep hr hphase) (HostBarrier.withReadings
    ((hb.hosts h).keepEntry (hsound.hosts h) r.key revision (some answer)
      fun hkey _ hp hbefore => ?_)
    fun r' hr' => .inl (mem_of_mem_eraseIdx hr'))
  -- What the host would keep is stale, so its watch has told it something newer since it began.
  obtain ⟨e, hget, hnewer, hseen⟩ :=
    (hb.hosts h).stored hp r hr hkey revision answer hphase hbefore hlate
  have hbegan := (hsound.hosts h).began r hr
  refine ⟨e, hget, ?_, hnewer⟩
  simp only [Entry.live, decide_eq_true_eq]
  omega

lemma Barrier.deliver : Barrier ttl (w.deliver ttl h) c key m p E := by
  have hnew : Sound ttl (w.deliver ttl h) := hsound.deliver
  rcases deliver_cases ttl w h with heq | ⟨change, hchange, heq⟩
  · exact heq.symm ▸ hb
  rw [heq] at hnew ⊢
  refine hb.setHost hsound hnew ?_
  rcases lt_trichotomy p ((w.hosts h).position + 1) with hbefore | hat | hafter
  · -- The host is past the barrier, so the change is not stale.
    have hp : p ≤ (w.hosts h).position := by omega
    have hkept := (hb.hosts h).keepEntry (hsound.hosts h) change.key ((w.hosts h).position + 1)
      change.value fun hkey hvalue _ hstale => by
        have := (hb.hosts h).delivered hp _ ⟨change, hchange, hkey, hvalue, hstale⟩
        omega
    exact ⟨hkept.readings, fun _ revision hstale =>
      ((hb.hosts h).delivered hp revision hstale).trans (le_succ _),
      fun _ => hkept.entries hp, fun _ => hkept.stored hp⟩
  · exact hb.hostBarrier_of_mark hsound hat hchange
  · have hno : ¬ p ≤ (w.hosts h).position + 1 := by omega
    exact ⟨(hb.hosts h).readings, fun hp => absurd hp hno, fun hp => absurd hp hno,
      fun hp => absurd hp hno⟩

lemma Barrier.step {a : Action H A} (ha : Timely ttl w a) :
    Barrier ttl (step ttl w a) c key m p E := by
  cases a with
  | wait time => exact hb.frame hsound rfl rfl rfl (le_add_right _ _) le_rfl
  | commit deletions => exact hb.frame hsound rfl rfl rfl le_rfl (le_succ _)
  | next c' =>
    show Barrier ttl (w.next c') c key m p E
    rcases next_cases w c' with heq | ⟨d, remaining, -, -, heq⟩
    · exact heq.symm ▸ hb
    · rw [heq]
      exact hb.frame hsound rfl rfl rfl le_rfl le_rfl
  | delete c' => exact hb.delete hsound c'
  | expire key' => exact hb.expire hsound key'
  | ticket h key' => exact hb.ticket hsound key'
  | advance h i merge =>
    simp only [HostMemory.step]
    split
    · rename_i r hr
      have hmem := mem_of_getElem? hr
      have hlate := ha r hr
      simp only [World.advance]
      split
      · refine hb.setReading hsound hmem (fun _ _ hphase => by cases hphase) fun _ => .inl ?_
        have := hb.bucket.committed
        simp only [Reading.ReadBefore]
        omega
      · rename_i hphase
        exact hb.send hsound hmem hphase
      · rename_i hphase
        exact hb.update hsound hmem hlate hphase
      · rename_i hphase
        exact hb.keep hsound hmem hlate hphase
    · exact hb
  | deliver h => exact hb.deliver hsound

end Barriers

/-! ## Withdrawn facts -/

section Withdrawn

variable {ttl c : ℕ} {key : String} {w : World H A}

/-- A key that the change of a writer covers is still to be dealt with, or has its barrier. -/
def Dealt (ttl : ℕ) (w : World H A) (c : ℕ) (key : String) : Prop :=
  (∃ d ∈ (w.writers c).remaining, d.covers key = true) ∨ key ∈ (w.writers c).keys ∨
    ∃ m p E, p ≤ (w.writers c).upTo ∧ Barrier ttl w c key m p E

/-- What holds of the writer of a change. -/
structure WriterSound (ttl : ℕ) (w : World H A) (c : ℕ) : Prop where
  upTo : (w.writers c).upTo ≤ w.bucket.revision
  covered : ∀ key, (∃ d ∈ (w.writers c).deletions, d.covers key = true) →
    c ≤ w.commits ∧ Dealt ttl w c key

/-- What holds of the hosts and the writers in every run. -/
structure Invariant (ttl : ℕ) (w : World H A) : Prop where
  sound : Sound ttl w
  writers : ∀ c, WriterSound ttl w c

lemma invariant_start : Invariant ttl (World.start : World H A) where
  sound := by
    refine ⟨KvBucket.valid_empty, fun h => ⟨rfl, ?_, le_rfl, ?_, ?_, ?_⟩⟩
    · intro key e he
      cases he
    all_goals exact fun r hr => by cases hr
  writers c := ⟨le_rfl, fun key ⟨d, hd, _⟩ => by cases hd⟩

variable [DecidableEq H]

/-- A read that goes on leaves the writers, and the bucket only grows. -/
theorem advance_frame (ttl : ℕ) (w : World H A) (h : H) (i : ℕ) (r : Reading A)
    (merge : Option A → A) :
    (w.advance ttl h i r merge).writers = w.writers ∧
      (w.advance ttl h i r merge).commits = w.commits ∧
        w.bucket.revision ≤ (w.advance ttl h i r merge).bucket.revision := by
  simp only [World.advance]
  split
  · exact ⟨rfl, rfl, le_rfl⟩
  · unfold World.send
    split
    · exact ⟨rfl, rfl, le_rfl⟩
    · split <;> exact ⟨rfl, rfl, le_rfl⟩
  · rename_i readAt answer _
    rcases update_cases w h i r readAt answer with heq | ⟨-, heq⟩
    · rw [heq]
      exact ⟨rfl, rfl, le_rfl⟩
    · rw [heq]
      exact ⟨rfl, rfl, by simp only [KvBucket.revision_write]; exact le_succ _⟩
  · exact ⟨rfl, rfl, le_rfl⟩

section

variable (hw : Invariant ttl w)

include hw

/-- A step leaves what holds of the writers that it does not change. -/
theorem Invariant.of_changed {a : Action H A} (ha : Timely ttl w a)
    (hcommits : w.commits ≤ (step ttl w a).commits)
    (hrevision : w.bucket.revision ≤ (step ttl w a).bucket.revision)
    (hchanged : ∀ c, (step ttl w a).writers c = w.writers c ∨ WriterSound ttl (step ttl w a) c) :
    Invariant ttl (step ttl w a) := by
  refine ⟨hw.sound.step a, fun c => (hchanged c).elim (fun hsame => ?_) id⟩
  refine ⟨hsame ▸ (hw.writers c).upTo.trans hrevision, fun key hcovered => ?_⟩
  rw [hsame] at hcovered
  obtain ⟨hc, hdealt⟩ := (hw.writers c).covered key hcovered
  refine ⟨hc.trans hcommits, ?_⟩
  rw [Dealt, hsame]
  refine hdealt.imp id (Or.imp id ?_)
  rintro ⟨m, p, E, hp, hb⟩
  exact ⟨m, p, E, hp, hb.step hw.sound ha⟩

lemma Invariant.commit (deletions : List Deletion) :
    Invariant ttl (step ttl w (.commit deletions)) := by
  refine hw.of_changed trivial (le_succ _) le_rfl fun c => ?_
  by_cases hc : c = w.commits + 1
  · subst hc
    refine .inr ⟨by simp [HostMemory.step], fun key hcovered => ⟨le_rfl, .inl ?_⟩⟩
    simpa [HostMemory.step] using hcovered
  · exact .inl (by simp [HostMemory.step, hc])

omit [DecidableEq H] in
/-- The listing of a deletion finds the keys that the bucket holds, and leaves the others
settled. -/
theorem Invariant.dealt_keys {d : Deletion} {remaining : List Deletion} {key : String}
    (hlist : ListsSettled ttl w (.next c)) (hkeys : (w.writers c).keys = [])
    (hremaining : (w.writers c).remaining = d :: remaining) (hc : c ≤ w.commits)
    (hcovers : d.covers key = true) :
    key ∈ d.keys w.bucket ∨ ∃ m E, Barrier ttl w c key m 0 E := by
  cases d with
  | key name =>
    obtain rfl : name = key := of_decide_eq_true hcovers
    exact .inl mem_cons_self
  | under token =>
    cases hlast : w.bucket.last key with
    | some r => exact .inl (hw.sound.bucket.mem_keys.2 ⟨hcovers, by rw [hlast]; rfl⟩)
    | none =>
      exact .inr ⟨_, _, barrier_of_settled hw.sound hc hlast
        (hlist token remaining hkeys hremaining key hcovers hlast)⟩

lemma Invariant.next (hlist : ListsSettled ttl w (.next c)) :
    Invariant ttl (step ttl w (.next c)) := by
  have htimely : Timely ttl w (.next c : Action H A) := trivial
  have hstep : step ttl w (.next c : Action H A) = w.next c := rfl
  rcases next_cases w c with heq | ⟨d, remaining, hkeys, hremaining, heq⟩
  · rw [hstep, heq]
    exact hw
  refine hw.of_changed htimely (by rw [hstep, heq]) (by rw [hstep, heq]) fun c' => ?_
  by_cases hne : c' = c
  · subst hne
    have hself : (step ttl w (.next c' : Action H A)).writers c' =
        { w.writers c' with remaining, keys := d.keys w.bucket, upTo := w.bucket.revision } := by
      rw [hstep, heq]
      exact update_self _ _ _
    refine .inr ⟨by rw [hself, hstep, heq], fun key hcovered => ?_⟩
    rw [hself] at hcovered
    obtain ⟨hc, hdealt⟩ := (hw.writers c').covered key hcovered
    refine ⟨by rwa [hstep, heq], ?_⟩
    rw [Dealt, hself]
    rcases hdealt with ⟨d', hd', hcovers⟩ | hkey | ⟨m, p, E, hp, hb⟩
    · rw [hremaining] at hd'
      rcases mem_cons.1 hd' with rfl | hrest
      · refine .inr ((hw.dealt_keys hlist hkeys hremaining hc hcovers).imp id ?_)
        rintro ⟨m, E, hb⟩
        exact ⟨m, 0, E, zero_le _, hb.step hw.sound htimely⟩
      · exact .inl ⟨d', hrest, hcovers⟩
    · rw [hkeys] at hkey
      cases hkey
    · exact .inr (.inr ⟨m, p, E, hp.trans (hw.writers c').upTo, hb.step hw.sound htimely⟩)
  · exact .inl (by rw [hstep, heq]; exact update_of_ne hne _ _)

lemma Invariant.delete : Invariant ttl (step ttl w (.delete c)) := by
  have htimely : Timely ttl w (.delete c : Action H A) := trivial
  have hstep : step ttl w (.delete c : Action H A) = w.delete c := rfl
  rcases delete_cases w c with heq | ⟨key', keys, hkeys, heq⟩
  · rw [hstep, heq]
    exact hw
  have hrevision : (step ttl w (.delete c : Action H A)).bucket.revision =
      w.bucket.revision + 1 := by
    rw [hstep, heq]
    exact KvBucket.revision_write
  refine hw.of_changed htimely (by rw [hstep, heq]) (hrevision ▸ le_succ _) fun c' => ?_
  by_cases hne : c' = c
  · subst hne
    have hself : (step ttl w (.delete c' : Action H A)).writers c' =
        { w.writers c' with keys, upTo := w.bucket.revision + 1 } := by
      rw [hstep, heq]
      exact update_self _ _ _
    refine .inr ⟨by rw [hself, hrevision], fun key hcovered => ?_⟩
    rw [hself] at hcovered
    obtain ⟨hc, hdealt⟩ := (hw.writers c').covered key hcovered
    refine ⟨by rwa [hstep, heq], ?_⟩
    rw [Dealt, hself]
    refine hdealt.imp id ?_
    rintro (hkey | ⟨m, p, E, hp, hb⟩)
    · rw [hkeys] at hkey
      rcases mem_cons.1 hkey with rfl | hrest
      · exact .inr ⟨_, _, _, le_rfl, barrier_of_delete hw.sound hc hkeys⟩
      · exact .inl hrest
    · exact .inr ⟨m, p, E, (hp.trans (hw.writers c').upTo).trans (le_succ _),
        hb.step hw.sound htimely⟩
  · exact .inl (by rw [hstep, heq]; exact update_of_ne hne _ _)

lemma Invariant.step {a : Action H A} (ha : Timely ttl w a) (hlist : ListsSettled ttl w a) :
    Invariant ttl (step ttl w a) := by
  cases a with
  | commit deletions => exact hw.commit deletions
  | next c => exact hw.next hlist
  | delete c => exact hw.delete
  | wait | ticket => exact hw.of_changed ha le_rfl le_rfl fun _ => .inl rfl
  | expire key => exact hw.of_changed ha le_rfl KvBucket.revision_expire.ge fun _ => .inl rfl
  | advance h i merge =>
    have hframe : (HostMemory.step ttl w (.advance h i merge)).writers = w.writers ∧
        (HostMemory.step ttl w (.advance h i merge)).commits = w.commits ∧
          w.bucket.revision ≤ (HostMemory.step ttl w (.advance h i merge)).bucket.revision := by
      simp only [HostMemory.step]
      split
      · exact advance_frame ttl w h i _ merge
      · exact ⟨rfl, rfl, le_rfl⟩
    exact hw.of_changed ha hframe.2.1.ge hframe.2.2 fun c => .inl (congrFun hframe.1 c)
  | deliver h =>
    have hstep : HostMemory.step ttl w (.deliver h : Action H A) = w.deliver ttl h := rfl
    rcases deliver_cases ttl w h with heq | ⟨change, -, heq⟩
    · rw [hstep, heq]
      exact hw
    · exact hw.of_changed ha (by rw [hstep, heq]; rfl) (by rw [hstep, heq]; rfl)
        fun _ => .inl (by rw [hstep, heq]; rfl)

end

/-- Host memory never brings back a withdrawn fact, in a run whose listings find the keys that are
not settled: once the deletions of a committed change have finished and the watch of a host has
delivered every revision up to them, that host answers for no key the change covers a fact that was
read before it. -/
theorem withdrawn_fact_is_never_answered (ttl : ℕ) {w : World H A}
    (hw : Runs ttl (ListsSettled ttl) w) (c : ℕ) (hfinished : (w.writers c).Finished) (h : H)
    (hdelivered : (w.writers c).upTo ≤ (w.hosts h).position) (key : String)
    (hcovers : ∃ d ∈ (w.writers c).deletions, d.covers key = true) (readAt : ℕ)
    (hanswers : Answers ttl w h key readAt) : c ≤ readAt := by
  have hinvariant : Invariant ttl w :=
    Steps.invariant (fun _ _ hw ha => hw.step ha.1 ha.2) hw invariant_start
  obtain ⟨-, hcases⟩ := (hinvariant.writers c).covered key hcovers
  rcases hcases with ⟨d, hd, -⟩ | hkey | ⟨m, p, E, hp, hb⟩
  · rw [hfinished.1] at hd
    cases hd
  · rw [hfinished.2] at hkey
    cases hkey
  · obtain ⟨e, he, hlive, hanswer, rfl⟩ := hanswers
    exact (hb.hosts h).entries (hp.trans hdelivered) e he hanswer hlive

end Withdrawn

namespace Sample

/-- The grants of a principal who may read orders. -/
def clerk : PrincipalGrants where
  present := true
  active := true
  user := some true
  roles := OrdMap.ofList [("clerk", OrdMap.ofList [("orders:read", ())])]

/-- A host takes the ticket of the grants of a principal and reads them. -/
def readGrants : List (Action Unit Answer) :=
  [.ticket () "acme.alice", .advance () 0 (grantsAnswer clerk)]

/-- The host puts what it read: the put is sent, taken and kept. -/
def putGrants : List (Action Unit Answer) :=
  List.replicate 3 (.advance () 0 (grantsAnswer clerk))

/-- A role of the environment changes, and the writer lists the keys of the environment. -/
def changeRole : List (Action Unit Answer) :=
  [.commit [(AuthChange.envKey "acme").deletion], .next 1]

def after (actions : List (Action Unit Answer)) : World Unit Answer :=
  actions.foldl (step 60) World.start

lemma timely_of_now {w : World Unit Answer} (hnow : w.now = 0) (a : Action Unit Answer) :
    Timely 60 w a := by
  cases a <;> simp only [Timely]
  intro r _
  omega

lemma answers_alice {w : World Unit Answer} {readAt : ℕ}
    (h : ((w.hosts ()).memory.entries.get "acme.alice").any
      (fun e => e.live 60 w.now && e.answer.isSome && (w.readAt e.revision == readAt)) = true) :
    Answers 60 w () "acme.alice" readAt := by
  cases he : (w.hosts ()).memory.entries.get "acme.alice" with
  | none => simp [he] at h
  | some e =>
    simp only [he, Option.any_some, Bool.and_eq_true, beq_iff_eq] at h
    exact ⟨e, he, h.1.1, h.1.2, h.2⟩

/-- Grants are put, a role changes, their key is deleted, and they are put again. -/
def grantsAgain : List (Action Unit Answer) :=
  readGrants ++ putGrants ++ [.deliver ()] ++ changeRole ++ [.delete 1, .deliver ()] ++
    readGrants ++ putGrants

lemma listsSettled_grantsAgain :
    ListsSettled 60 (after (readGrants ++ putGrants ++ [.deliver ()] ++ changeRole.take 1))
      (.next 1) := by
  intro token remaining _ _ key _ hlast
  have hkey : key ≠ "acme.alice" := by
    rintro rfl
    exact absurd hlast (by decide +kernel)
  refine ⟨fun h r hr => ?_, fun h revision hstale => ?_, fun h readAt hanswers => ?_⟩
  · exact absurd hr (show r ∉ ([] : List (Reading Answer)) by simp)
  · obtain ⟨change, hchange, hchangeKey, -⟩ := hstale
    match revision with
    | 0 => cases hchange
    | 1 =>
      have hput : change = ⟨"acme.alice", some (grantsAnswer clerk none), 0⟩ :=
        (Option.some.inj hchange).symm
      exact absurd (hchangeKey.symm.trans (congrArg KvChange.key hput)) hkey
    | n + 2 => cases hchange
  · obtain ⟨e, he, -⟩ := hanswers
    have hempty : (after (readGrants ++ putGrants ++ [.deliver ()] ++ changeRole.take 1)).hosts h =
        ⟨⟨OrdMap.empty.insert "acme.alice" ⟨1, 0, some (grantsAnswer clerk none)⟩, true⟩, [],
          1⟩ := rfl
    rw [hempty, OrdMap.get_insert, if_neg hkey] at he
    cases he

/-- Grants that are read again after the change are answered, and only they. -/
theorem grants_are_read_again :
    Answers 60 (after grantsAgain) () "acme.alice" 1 ∧
      ∀ readAt, Answers 60 (after grantsAgain) () "acme.alice" readAt → 1 ≤ readAt := by
  have hrun : Runs 60 (ListsSettled 60) (after grantsAgain) := by
    -- Only the eighth step is a listing.
    refine Steps.of_admitted ?_
    repeat' apply And.intro
    all_goals
      first
      | exact trivial
      | exact timely_of_now rfl _
      | exact listsSettled_grantsAgain
  refine ⟨answers_alice (by decide +kernel), ?_⟩
  exact withdrawn_fact_is_never_answered 60 hrun 1 ⟨rfl, rfl⟩ () (by decide +kernel) "acme.alice"
    ⟨.under "acme", by decide +kernel, by decide +kernel⟩

/-- The listing misses the key of a read under way, and the host answers the grants of before. -/
theorem under_misses_an_absent_key :
    ¬ ∀ w : World Unit Answer, Runs 60 (fun _ _ => True) w → ∀ c, (w.writers c).Finished →
      ∀ h, (w.writers c).upTo ≤ (w.hosts h).position → ∀ key,
        (∃ d ∈ (w.writers c).deletions, d.covers key = true) → ∀ readAt,
          Answers 60 w h key readAt → c ≤ readAt := by
  intro hall
  have hrun : Runs 60 (fun _ _ => True) (after (readGrants ++ changeRole ++ putGrants)) := by
    refine Steps.of_admitted ?_
    repeat' apply And.intro
    all_goals first | exact trivial | exact timely_of_now rfl _
  have hread := hall _ hrun 1 ⟨rfl, rfl⟩ () (by decide) "acme.alice"
    ⟨.under "acme", by decide, by decide⟩ 0 (answers_alice (by decide +kernel))
  omega

end Sample

end Wamn.HostMemory
