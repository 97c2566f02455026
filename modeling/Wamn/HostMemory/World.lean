import Wamn.HostMemory.AuthCache
import Wamn.Lib.Transition

/-!
# Writers and hosts around a bucket

Writers change facts in Postgres, and after the commit delete the keys of the facts from the bucket.
Hosts read facts, put them and watch the bucket. The steps of all of them interleave.
-/

namespace Wamn.HostMemory

open List Lib

/-! ## Writers, hosts and the bucket -/

inductive Phase (A : Type) where
  | ticketed
  /-- The host has read the fact, after so many commits. What it puts can also take over parts of
  the answer it replaces. -/
  | fetched (readAt : ℕ) (merge : Option A → A)
  /-- The update is on its way to the bucket. -/
  | sent (readAt : ℕ) (answer : A)
  /-- The bucket took the update, and the host has not kept it yet. -/
  | stored (revision : ℕ) (answer : A)

structure Reading (A : Type) where
  key : String
  ticket : ℕ
  began : ℕ
  phase : Phase A

/-- A host: its memory, its reads, and the revision up to which its watch has delivered. -/
structure Host (A : Type) where
  memory : KvMemory A
  readings : List (Reading A)
  position : ℕ

/-- The writer of a change after its commit: its deletions, those not begun, the keys of the begun
one still to delete, and the revision when it last did something. -/
structure Writer where
  deletions : List Deletion
  remaining : List Deletion
  keys : List String
  upTo : ℕ

def Writer.Finished (w : Writer) : Prop := w.remaining = [] ∧ w.keys = []

/-- Postgres with the number of its commits, the bucket, the hosts, and the writer of each change.
`readAt` records after how many commits the oldest fact of a revision was read. -/
structure World (H A : Type) where
  now : ℕ
  commits : ℕ
  bucket : KvBucket String A
  readAt : ℕ → ℕ
  hosts : H → Host A
  writers : ℕ → Writer

/-- Nothing has been written, and every host watches the bucket. -/
def World.start {H A : Type} : World H A where
  now := 0
  commits := 0
  bucket := .empty
  readAt := fun _ => 0
  hosts := fun _ => ⟨KvMemory.new.setBucket true, [], 0⟩
  writers := fun _ => ⟨[], [], [], 0⟩

inductive Action (H A : Type) where
  | wait (time : ℕ)
  | commit (deletions : List Deletion)
  /-- The writer of a change begins its next deletion. -/
  | next (change : ℕ)
  /-- The writer of a change deletes the next key. -/
  | delete (change : ℕ)
  | expire (key : String)
  /-- A host begins a read of a key. -/
  | ticket (h : H) (key : String)
  /-- The read `i` of a host goes on. `merge` is what a read of Postgres gives. -/
  | advance (h : H) (i : ℕ) (merge : Option A → A)
  | deliver (h : H)

variable {H A : Type}

variable (w : World H A) (c : ℕ)

/-- The next step of a writer: list the keys of its next deletion. -/
def World.next : World H A :=
  match (w.writers c).keys, (w.writers c).remaining with
  | [], d :: remaining =>
    let writer := { w.writers c with remaining, keys := d.keys w.bucket, upTo := w.bucket.revision }
    { w with writers := Function.update w.writers c writer }
  | _, _ => w

/-- The next step of a writer: delete the next listed key. -/
def World.delete : World H A :=
  match (w.writers c).keys with
  | key :: keys =>
    let bucket := w.bucket.delete w.now key
    let writer := { w.writers c with keys, upTo := bucket.revision }
    { w with bucket, writers := Function.update w.writers c writer }
  | [] => w

lemma delete_cases : w.delete c = w ∨ ∃ key keys, (w.writers c).keys = key :: keys ∧
      w.delete c =
        { w with
          bucket := w.bucket.write w.now key none
          writers := Function.update w.writers c
            { w.writers c with keys, upTo := w.bucket.revision + 1 } } := by
  unfold World.delete
  split
  · rename_i key keys hkeys
    refine .inr ⟨key, keys, hkeys, ?_⟩
    simp only [KvBucket.delete, KvBucket.revision_write]
  · exact .inl rfl

lemma next_cases : w.next c = w ∨ ∃ d remaining, (w.writers c).keys = [] ∧
      (w.writers c).remaining = d :: remaining ∧
        w.next c =
          { w with
            writers := Function.update w.writers c
              { w.writers c with
                remaining, keys := d.keys w.bucket, upTo := w.bucket.revision } } := by
  unfold World.next
  split
  · rename_i d remaining hkeys hremaining
    exact .inr ⟨d, remaining, hkeys, hremaining, rfl⟩
  · exact .inl rfl

section Steps

variable [DecidableEq H]

variable (w : World H A) (h : H) (i : ℕ) (ttl : ℕ)

def World.setHost (host : Host A) : World H A :=
  { w with hosts := Function.update w.hosts h host }

def World.setReading (r : Reading A) : World H A :=
  w.setHost h { w.hosts h with readings := (w.hosts h).readings.set i r }

def World.dropReading : World H A :=
  w.setHost h { w.hosts h with readings := (w.hosts h).readings.eraseIdx i }

def World.ticket (w : World H A) (h : H) (key : String) : World H A :=
  let r : Reading A := ⟨key, (w.hosts h).memory.ticket ttl w.now key, w.now, .ticketed⟩
  w.setHost h { w.hosts h with readings := (w.hosts h).readings ++ [r] }

/-- The first half of `put`: the host sends what it read, with what it takes over from the answer of
the ticket. Without the bucket nothing is kept. -/
def World.send (w : World H A) (h : H) (i : ℕ) (r : Reading A) (readAt : ℕ)
    (merge : Option A → A) : World H A :=
  if (w.hosts h).memory.bucket = false then w.dropReading h i
  else
    match (w.hosts h).memory.replaced ttl w.now r.key r.ticket with
    | some old =>
      let readAt := min readAt (w.readAt r.ticket)
      w.setReading h i { r with phase := .sent readAt (merge (some old)) }
    | none => w.setReading h i { r with phase := .sent readAt (merge none) }

/-- The bucket takes the update, or the key no longer has the revision of the ticket. -/
def World.update (r : Reading A) (readAt : ℕ) (answer : A) : World H A :=
  match w.bucket.update w.now r.key answer r.ticket with
  | some bucket =>
    let w := w.setReading h i { r with phase := .stored bucket.revision answer }
    { w with bucket, readAt := Function.update w.readAt bucket.revision readAt }
  | none => w.dropReading h i

/-- The second half of `put`: the host keeps what the bucket took. -/
def World.keep (w : World H A) (h : H) (i : ℕ) (r : Reading A) (revision : ℕ)
    (answer : A) : World H A :=
  let memory := (w.hosts h).memory.keepEntry ttl w.now r.key revision (some answer)
  w.setHost h { w.hosts h with memory, readings := (w.hosts h).readings.eraseIdx i }

/-- A read goes on: it reads Postgres, sends its put, has it taken, keeps it. -/
def World.advance (w : World H A) (h : H) (i : ℕ) (r : Reading A)
    (merge : Option A → A) : World H A :=
  match r.phase with
  | .ticketed => w.setReading h i { r with phase := .fetched w.commits merge }
  | .fetched readAt merge => w.send ttl h i r readAt merge
  | .sent readAt answer => w.update h i r readAt answer
  | .stored revision answer => w.keep ttl h i r revision answer

def World.deliver (w : World H A) (h : H) : World H A :=
  let position := (w.hosts h).position + 1
  match w.bucket.change position with
  | some change =>
    let memory := (w.hosts h).memory.apply ttl w.now position change
    w.setHost h { w.hosts h with memory, position }
  | none => w

def step (w : World H A) : Action H A → World H A
  | .wait time => { w with now := w.now + time }
  | .commit deletions =>
    let writer : Writer := ⟨deletions, deletions, [], w.bucket.revision⟩
    { w with
      commits := w.commits + 1, writers := Function.update w.writers (w.commits + 1) writer }
  | .next c => w.next c
  | .delete c => w.delete c
  | .expire key => { w with bucket := w.bucket.expire ttl w.now key }
  | .ticket h key => w.ticket ttl h key
  | .advance h i merge =>
    match (w.hosts h).readings[i]? with
    | some r => w.advance ttl h i r merge
    | none => w
  | .deliver h => w.deliver ttl h

end Steps

variable (ttl : ℕ) (w : World H A) (c : ℕ)

def Timely : Action H A → Prop
  | .advance h i _ => ∀ r, (w.hosts h).readings[i]? = some r → w.now < r.began + ttl
  | _ => True

/-- The host answers the key, with a fact that was read after so many commits. -/
def Answers (h : H) (key : String) (readAt : ℕ) : Prop :=
  ∃ e, (w.hosts h).memory.entries.get key = some e ∧ e.live ttl w.now = true ∧
    e.answer.isSome = true ∧ w.readAt e.revision = readAt

/-- What the read has of Postgres and has not put yet was read before the change. -/
def Reading.ReadBefore (r : Reading A) : Prop :=
  match r.phase with
  | .fetched readAt _ | .sent readAt _ => readAt < c
  | _ => False

/-- The bucket gave out a value of the key, at a revision, that was read before the change. -/
def World.Stale (key : String) (revision : ℕ) : Prop :=
  ∃ change, w.bucket.change revision = some change ∧ change.key = key ∧
    change.value.isSome = true ∧ w.readAt revision < c

/-- The bucket holds no change of the key, no timely read with the ticket 0 has read Postgres before
the change, every host has been delivered all, and none answers from it. -/
structure Settled (key : String) : Prop where
  readings : ∀ h, ∀ r ∈ (w.hosts h).readings, r.key = key → r.ticket = 0 →
    w.now < r.began + ttl → ¬ r.ReadBefore c
  delivered : ∀ h revision, w.Stale c key revision → revision ≤ (w.hosts h).position
  answers : ∀ h readAt, Answers ttl w h key readAt → c ≤ readAt

/-- The keys that a listing does not find are settled. -/
def ListsSettled : Action H A → Prop
  | .next c => ∀ token remaining, (w.writers c).keys = [] →
      (w.writers c).remaining = .under token :: remaining →
        ∀ key, (Deletion.under token).covers key = true → w.bucket.last key = none →
          Settled ttl w c key
  | _ => True

/-- A run from the start, of steps that are timely and meet a condition. -/
def Runs [DecidableEq H] (ttl : ℕ) (condition : World H A → Action H A → Prop) : World H A → Prop :=
  Steps (step ttl) (fun w a => Timely ttl w a ∧ condition w a) World.start

/-! ## What holds of a host in every run -/

/-- What a host has is of the bucket: its entries and its taken puts are changes of it. -/
structure HostSound (bucket : KvBucket String A) (now : ℕ) (host : Host A) : Prop where
  watching : host.memory.bucket = true
  entry : ∀ {key e}, host.memory.entries.get key = some e → ∃ change,
    bucket.change e.revision = some change ∧ change.key = key ∧ change.value = e.answer ∧
      change.written ≤ e.seen
  position : host.position ≤ bucket.revision
  ticket : ∀ r ∈ host.readings, r.ticket ≤ bucket.revision
  began : ∀ r ∈ host.readings, r.began ≤ now
  stored : ∀ r ∈ host.readings, ∀ revision answer, r.phase = .stored revision answer →
    ∃ change, bucket.change revision = some change ∧ change.key = r.key ∧
      change.value = some answer ∧ r.began ≤ change.written

structure Sound : Prop where
  bucket : w.bucket.Valid ttl w.now
  hosts : ∀ h, HostSound w.bucket w.now (w.hosts h)

namespace HostSound

variable {bucket bucket' : KvBucket String A} {now now' revision : ℕ} {host : Host A}
  {key : String} {ans : Option A}

variable (h : HostSound bucket now host)

include h

lemma mono (hchange : ∀ {r c}, bucket.change r = some c → bucket'.change r = some c)
    (hrevision : bucket.revision ≤ bucket'.revision) (hnow : now ≤ now') :
    HostSound bucket' now' host where
  watching := h.watching
  entry he := by
    obtain ⟨c, hc, hrest⟩ := h.entry he
    exact ⟨c, hchange hc, hrest⟩
  position := h.position.trans hrevision
  ticket r hr := (h.ticket r hr).trans hrevision
  began r hr := (h.began r hr).trans hnow
  stored r hr revision answer hphase := by
    obtain ⟨c, hc, hrest⟩ := h.stored r hr revision answer hphase
    exact ⟨c, hchange hc, hrest⟩

lemma withReadings {readings : List (Reading A)}
    (hreadings : ∀ r ∈ readings, r ∈ host.readings ∨
      r.ticket ≤ bucket.revision ∧ r.began ≤ now ∧ ∀ revision answer,
        r.phase = .stored revision answer → ∃ change, bucket.change revision = some change ∧
          change.key = r.key ∧ change.value = some answer ∧ r.began ≤ change.written) :
    HostSound bucket now { host with readings } where
  watching := h.watching
  entry := h.entry
  position := h.position
  ticket r hr := (hreadings r hr).elim (h.ticket r) fun h => h.1
  began r hr := (hreadings r hr).elim (h.began r) fun h => h.2.1
  stored r hr := (hreadings r hr).elim (fun hr => h.stored r hr) fun h => h.2.2

lemma keepEntry (ttl : ℕ) {change : KvChange String A}
    (hchange : bucket.change revision = some change) (hkey : change.key = key)
    (hvalue : change.value = ans) (hwritten : change.written ≤ now) :
    HostSound bucket now
      { host with memory := host.memory.keepEntry ttl now key revision ans } where
  watching := by simpa using h.watching
  entry := by
    intro key' e he
    by_cases hne : key' = key
    · subst hne
      obtain ⟨e', he', hcases⟩ := KvMemory.get_keepEntry_self h.watching ttl now key' revision ans
      obtain rfl := Option.some.inj (he.symm.trans he')
      rcases hcases with rfl | ⟨hold, -⟩
      · exact ⟨change, hchange, hkey, hvalue, hwritten⟩
      · exact h.entry hold
    · exact h.entry (KvMemory.get_keepEntry_other hne he)
  position := h.position
  ticket := h.ticket
  began := h.began
  stored := h.stored

end HostSound

lemma Sound.write {ttl : ℕ} {w : World H A} {key : String} (hw : Sound ttl w)
    (value : Option A) (h : H) :
    HostSound (w.bucket.write w.now key value) w.now (w.hosts h) :=
  (hw.hosts h).mono (fun hchange => KvBucket.change_write_eq_some.2 (.inr hchange))
    (by rw [KvBucket.revision_write]; exact Nat.le_succ _) le_rfl

section Steps

variable [DecidableEq H] {ttl c i : ℕ} {key : String} {w : World H A} {h h' : H} {host : Host A}
  {r r' : Reading A}

lemma forall_setHost {P : Host A → Prop} (hold : ∀ h', h' ≠ h → P (w.hosts h')) (hnew : P host)
    (h' : H) : P ((w.setHost h host).hosts h') := by
  by_cases hne : h' = h
  · subst hne
    simpa [World.setHost] using hnew
  · simpa [World.setHost, hne] using hold h' hne

lemma mem_readings_set (h : r' ∈ host.readings.set i r) : r' ∈ host.readings ∨ r' = r :=
  mem_or_eq_of_mem_set h

lemma update_cases (w : World H A) (h : H) (i : ℕ) (r : Reading A) (readAt : ℕ) (answer : A) :
    w.update h i r readAt answer = w.dropReading h i ∨
      w.bucket.lastRevision r.key = r.ticket ∧
        w.update h i r readAt answer =
          { w.setReading h i { r with phase := .stored (w.bucket.revision + 1) answer } with
            bucket := w.bucket.write w.now r.key (some answer)
            readAt := Function.update w.readAt (w.bucket.revision + 1) readAt } := by
  unfold World.update KvBucket.update
  by_cases hlast : w.bucket.lastRevision r.key = r.ticket
  · rw [if_pos hlast]
    exact .inr ⟨hlast, by simp only [KvBucket.revision_write]; rfl⟩
  · rw [if_neg hlast]
    exact .inl rfl

lemma deliver_cases (ttl : ℕ) (w : World H A) (h : H) :
    w.deliver ttl h = w ∨ ∃ change, w.bucket.change ((w.hosts h).position + 1) = some change ∧
      w.deliver ttl h = w.setHost h
        { w.hosts h with
          memory := (w.hosts h).memory.keepEntry ttl w.now change.key ((w.hosts h).position + 1)
            change.value
          position := (w.hosts h).position + 1 } := by
  simp only [World.deliver]
  split
  · rename_i change hchange
    exact .inr ⟨change, hchange, rfl⟩
  · exact .inl rfl

variable (hw : Sound ttl w)

include hw

lemma Sound.setHost (hhost : HostSound w.bucket w.now host) : Sound ttl (w.setHost h host) :=
  ⟨hw.bucket, forall_setHost (fun h' _ => hw.hosts h') hhost⟩

lemma Sound.dropReading : Sound ttl (w.dropReading h i) :=
  hw.setHost ((hw.hosts h).withReadings fun _ hr => .inl (mem_of_mem_eraseIdx hr))

lemma Sound.ticket : Sound ttl (w.ticket ttl h key) := by
  refine hw.setHost ((hw.hosts h).withReadings fun r hr => ?_)
  rcases mem_append.1 hr with hold | hnew
  · exact .inl hold
  · obtain rfl := mem_singleton.1 hnew
    refine .inr ⟨?_, le_rfl, fun _ _ hphase => by cases hphase⟩
    rcases KvMemory.ticket_cases (w.hosts h).memory ttl w.now key with hzero | ⟨e, he, hticket⟩
    · exact hzero.le.trans (Nat.zero_le _)
    · obtain ⟨change, hchange, -⟩ := (hw.hosts h).entry he
      exact hticket.le.trans (KvBucket.le_revision hchange).2

lemma Sound.deliver : Sound ttl (w.deliver ttl h) := by
  rcases deliver_cases ttl w h with heq | ⟨change, hchange, heq⟩
  · exact heq.symm ▸ hw
  · rw [heq]
    have hkept := (hw.hosts h).keepEntry ttl hchange rfl rfl (hw.bucket.past hchange)
    exact hw.setHost { hkept with position := (KvBucket.le_revision hchange).2 }

section

variable (hr : r ∈ (w.hosts h).readings)

include hr

lemma Sound.setReading {phase : Phase A}
    (hphase : ∀ revision answer, phase ≠ .stored revision answer) :
    Sound ttl (w.setReading h i { r with phase }) := by
  refine hw.setHost ((hw.hosts h).withReadings fun r' hr' => ?_)
  rcases mem_readings_set hr' with hold | rfl
  · exact .inl hold
  · exact .inr ⟨(hw.hosts h).ticket r hr, (hw.hosts h).began r hr,
      fun revision answer hstored => absurd hstored (hphase revision answer)⟩

lemma Sound.send (readAt : ℕ) (merge : Option A → A) :
    Sound ttl (w.send ttl h i r readAt merge) := by
  unfold World.send
  split
  · exact hw.dropReading
  · split
    · exact hw.setReading hr fun _ _ hphase => by cases hphase
    · exact hw.setReading hr fun _ _ hphase => by cases hphase

lemma Sound.update (readAt : ℕ) (answer : A) : Sound ttl (w.update h i r readAt answer) := by
  rcases update_cases w h i r readAt answer with heq | ⟨-, heq⟩
  · exact heq ▸ hw.dropReading
  · rw [heq]
    refine ⟨hw.bucket.write, ?_⟩
    refine forall_setHost (fun h' _ => hw.write (some answer) h') ?_
    refine (hw.write (some answer) h).withReadings fun r' hr' => ?_
    rcases mem_readings_set hr' with hold | rfl
    · exact .inl hold
    · refine .inr ⟨(hw.write (some answer) h).ticket r hr, (hw.hosts h).began r hr, ?_⟩
      intro revision answer' hphase
      cases hphase
      exact ⟨_, KvBucket.change_write_eq_some.2 (.inl ⟨rfl, rfl⟩), rfl, rfl,
        (hw.hosts h).began r hr⟩

lemma Sound.keep {revision : ℕ} {answer : A} (hphase : r.phase = .stored revision answer) :
    Sound ttl (w.keep ttl h i r revision answer) := by
  obtain ⟨change, hchange, hkey, hvalue, -⟩ := (hw.hosts h).stored r hr revision answer hphase
  refine hw.setHost ?_
  have hkept := (hw.hosts h).keepEntry ttl hchange hkey hvalue (hw.bucket.past hchange)
  exact hkept.withReadings fun r' hr' => .inl (mem_of_mem_eraseIdx hr')

end

lemma Sound.step (a : Action H A) : Sound ttl (step ttl w a) := by
  cases a with
  | wait time =>
    exact ⟨hw.bucket.later (Nat.le_add_right _ _),
      fun h => (hw.hosts h).mono id le_rfl (Nat.le_add_right _ _)⟩
  | commit deletions => exact ⟨hw.bucket, hw.hosts⟩
  | next c =>
    show Sound ttl (w.next c)
    rcases next_cases w c with heq | ⟨d, remaining, -, -, heq⟩
    · exact heq.symm ▸ hw
    · exact heq.symm ▸ ⟨hw.bucket, hw.hosts⟩
  | delete c =>
    show Sound ttl (w.delete c)
    rcases delete_cases w c with heq | ⟨key, keys, -, heq⟩
    · exact heq.symm ▸ hw
    · exact heq.symm ▸ ⟨hw.bucket.write, hw.write none⟩
  | expire key =>
    exact ⟨hw.bucket.expire, fun h => (hw.hosts h).mono
      (fun hchange => KvBucket.change_expire.trans hchange) KvBucket.revision_expire.ge le_rfl⟩
  | ticket h key => exact hw.ticket
  | advance h i merge =>
    simp only [HostMemory.step]
    split
    · rename_i r hr
      have hmem := mem_of_getElem? hr
      simp only [World.advance]
      split
      · exact hw.setReading hmem fun _ _ hphase => by cases hphase
      · exact hw.send hmem _ _
      · exact hw.update hmem _ _
      · rename_i hphase
        exact hw.keep hmem hphase
    · exact hw
  | deliver h => exact hw.deliver

end Steps

end Wamn.HostMemory
