import Mathlib.Data.List.Perm.Basic
import Mathlib.Data.String.Basic
import Mathlib.Logic.Function.Basic
import Wamn.Lib.Transition

/-!
# Exclusive resource leases of a host

An exclusive resource is called under a lease: a local one is held through a mutex of its key, a
database one through an advisory lock of the host's one session. Calls, revocations, a task for each
local lease and the session task share only the fields of the leases, so every load and store is a
step, and all steps interleave. The server may have granted a lock before the session task knows.
-/

namespace Wamn.ResourceLease

open Lib Function

/-- `PENDING`, `HELD`, `LOST` and `RELEASED`. -/
inductive LeaseState where
  | pending
  | held
  | lost
  | released
  deriving DecidableEq

structure Lease where
  key : String
  isLocal : Bool
  connection : String
  deriving DecidableEq

inductive Command where
  | acquire (lease : ℕ)
  | release (lease : ℕ)
  | stop
  deriving DecidableEq

inductive CallPhase where
  | ended
  /-- `enter` gave it the lease, and it waits until the lease is held. -/
  | entered
  | locking
  /-- It has the call mutex. -/
  | locked
  | loaded (epoch : ℕ)
  /-- It has seen the lease active. -/
  | checked (epoch : ℕ)
  /-- It has seen the lease held: the `Call` is in progress. -/
  | running (epoch : ℕ)
  /-- The `Call` is in progress, and `held` has seen the lease held. -/
  | asking (epoch : ℕ)
  deriving DecidableEq

structure Call where
  lease : ℕ
  phase : CallPhase
  deriving DecidableEq

/-- How far the task of a local lease has come, with the mutex it refers to. -/
inductive LocalTask where
  | absent
  | spawned
  | waiting (mutex : ℕ)
  /-- It has the guard of the mutex. -/
  | locked (mutex : ℕ)
  /-- It has seen the lease active. -/
  | checked (mutex : ℕ)
  | holding (mutex : ℕ)
  /-- It has left the loop and still has the guard. -/
  | leaving (mutex : ℕ)
  | releasing
  | ended
  deriving DecidableEq

@[simp]
def LocalTask.mutex? : LocalTask → Option ℕ
  | .waiting m | .locked m | .checked m | .holding m | .leaving m => some m
  | _ => none

/-- Where the session task is. `granted`, `unlocked`: the server has executed the statement. -/
inductive SessionPhase where
  /-- There is no session. -/
  | down
  /-- At the head of its loop. -/
  | idle
  | acquiring (lease : ℕ) (granted : Bool)
  /-- It cancels the acquire, for a command it received or because others wait. -/
  | cancelling (lease : ℕ) (granted : Bool) (command : Option Command)
  | received (command : Command)
  | unlocking (lease : ℕ) (unlocked : Bool)
  /-- The session is lost, and these leases are still to be marked. -/
  | losing (leases : List ℕ)
  /-- The state of the lease is marked, and its epoch is still to be counted up. -/
  | counting (lease : ℕ) (leases : List ℕ)
  | ended
  deriving DecidableEq

/-- The session task, and the advisory locks of its session. `dead`: the server has ended it. -/
structure Session where
  phase : SessionPhase
  needed : List ℕ
  deferred : Option Command
  pending : List ℕ
  locks : String → ℕ
  dead : Bool

/-- The leases below `count`, the lease of each connection, and the tasks. `active`, `state` and
`epoch` are the atomics of a lease, `owner` is the call with its call mutex, and `guards` the lease
that has a local mutex. -/
structure Host where
  leases : ℕ → Lease
  count : ℕ
  map : String → Option ℕ
  active : ℕ → Bool
  state : ℕ → LeaseState
  epoch : ℕ → ℕ
  owner : ℕ → Option ℕ
  stopped : Bool
  channel : List Command
  revokers : List ℕ
  calls : ℕ → Call
  locals : ℕ → LocalTask
  localMap : String → Option ℕ
  mutexes : ℕ
  guards : ℕ → Option ℕ
  session : Session

def Host.start : Host where
  leases := fun _ => ⟨"", true, ""⟩
  count := 0
  map := fun _ => none
  active := fun _ => true
  state := fun _ => .pending
  epoch := fun _ => 0
  owner := fun _ => none
  stopped := false
  channel := []
  revokers := []
  calls := fun _ => ⟨0, .ended⟩
  locals := fun _ => .absent
  localMap := fun _ => none
  mutexes := 0
  guards := fun _ => none
  session := ⟨.down, [], none, [], fun _ => 0, false⟩

/-- What can happen next. `order`: how the session task meets the leases of its map. -/
inductive Action where
  /-- A call begins: `enter` finds or makes the lease of its connection. -/
  | enter (call : ℕ) (connection key : String) (isLocal : Bool)
  /-- A call takes its next step. -/
  | call (call : ℕ)
  /-- A call gives up before it has the call mutex, or the `Call` is dropped. -/
  | drop (call : ℕ)
  /-- `invalidate`, `clear` or `shutdown` revokes the lease of a connection. -/
  | revoke (connection : String)
  /-- A revocation gets the call mutex of its lease and goes on. -/
  | retire (lease : ℕ)
  /-- The task of a local lease takes its next step. -/
  | localStep (lease : ℕ)
  /-- The task of a local lease is notified before it has the mutex. -/
  | localAbort (lease : ℕ)
  | shutdown
  /-- `shutdown` has seen every lease released and stops the session task. -/
  | stop
  | connect (order : List ℕ)
  | receive
  | handle (order : List ℕ)
  | pop
  | acquired
  /-- The server executes the statement. -/
  | execute
  /-- The server ends the session. -/
  | die
  | cancel (forCommand : Bool)
  | cancelled (acquired : Bool)
  | unlocked (order : List ℕ)
  | lose (order : List ℕ)
  | mark
  deriving DecidableEq

/-- The command that is deferred when the session is given up. -/
def Session.unhandled (s : Session) : Option Command :=
  match s.phase with
  | .cancelling _ _ (some c) => some c
  | .unlocking l _ => some (.release l)
  | _ => s.deferred

namespace Host

variable (h : Host) (l : ℕ) (i : ℕ) (order : List ℕ)

/-- `Lease::set`, but for the epoch. -/
def set (state : LeaseState) : Host :=
  { h with state := update h.state l state }

def setPhase (phase : CallPhase) : Host :=
  { h with calls := update h.calls i ⟨(h.calls i).lease, phase⟩ }

def setLocal (task : LocalTask) : Host :=
  { h with locals := update h.locals l task }

/-! ## Calls -/

/-- The lease of a connection that `enter` goes on with: one that is released is forgotten. -/
def current (connection : String) : Option ℕ :=
  (h.map connection).filter fun l => h.state l ≠ .released

/-- `enter` makes a lease, and has its task spawned or its acquire sent. -/
def newLease (connection key : String) (isLocal : Bool) : Host :=
  { h with
    leases := update h.leases h.count ⟨key, isLocal, connection⟩
    count := h.count + 1
    map := update h.map connection (some h.count)
    active := update h.active h.count true
    state := update h.state h.count .pending
    epoch := update h.epoch h.count 0
    owner := update h.owner h.count none
    channel := if isLocal then h.channel else h.channel ++ [.acquire h.count]
    locals := if isLocal then update h.locals h.count .spawned else h.locals }

/-- `enter`, up to the lease it waits on. -/
def enter (connection key : String) (isLocal : Bool) : Host :=
  if h.stopped = true ∨ (h.calls i).phase ≠ .ended then h
  else
    match h.current connection with
    | some l => { h with calls := update h.calls i ⟨l, .entered⟩ }
    | none =>
      { h.newLease connection key isLocal with
        calls := update h.calls i ⟨h.count, .entered⟩ }

def endCall : Host :=
  { h.setPhase i .ended with owner := update h.owner (h.calls i).lease none }

def callStep : Host :=
  let l := (h.calls i).lease
  match (h.calls i).phase with
  | .ended => h
  | .entered => if h.state l = .held then h.setPhase i .locking else h
  | .locking =>
    if h.owner l = none then
      { h.setPhase i .locked with owner := update h.owner l (some i) }
    else h
  | .locked => h.setPhase i (.loaded (h.epoch l))
  | .loaded epoch => if h.active l then h.setPhase i (.checked epoch) else h.endCall i
  | .checked epoch => if h.state l = .held then h.setPhase i (.running epoch) else h.endCall i
  | .running epoch => if h.state l = .held then h.setPhase i (.asking epoch) else h
  | .asking epoch => h.setPhase i (.running epoch)

/-- A call gives up, or its `Call` is dropped. -/
def dropCall : Host :=
  match (h.calls i).phase with
  | .entered | .locking => h.setPhase i .ended
  | .running _ | .asking _ => h.endCall i
  | _ => h

/-! ## Revocations -/

/-- `revoke` stops new calls and spawns a task. -/
def revoke (connection : String) : Host :=
  match h.map connection with
  | some l =>
    if h.active l then
      { h with active := update h.active l false, revokers := l :: h.revokers }
    else h
  | none => h

/-- A revocation that has the call mutex tells the session task, or releases the lease itself. -/
def retire : Host :=
  if l ∈ h.revokers ∧ h.owner l = none then
    if (h.leases l).isLocal = false ∧ h.session.phase ≠ .ended then
      { h with revokers := h.revokers.erase l, channel := h.channel ++ [.release l] }
    else { h.set l .released with revokers := h.revokers.erase l }
  else h

/-! ## Local leases -/

/-- The mutex of a key: the one in the map, if a task keeps it alive, or a new one. -/
def lookupMutex (key : String) : ℕ :=
  match h.localMap key with
  | some m => if ∃ l < h.count, (h.locals l).mutex? = some m then m else h.mutexes
  | none => h.mutexes

/-- `local_lease`, one step at a time. -/
def localStep : Host :=
  match h.locals l with
  | .spawned =>
    let m := h.lookupMutex (h.leases l).key
    { h.setLocal l (.waiting m) with
      localMap := update h.localMap (h.leases l).key (some m)
      mutexes := max h.mutexes (m + 1) }
  | .waiting m =>
    if h.guards m = none then
      { h.setLocal l (.locked m) with guards := update h.guards m (some l) }
    else h
  | .locked m =>
    if h.active l then h.setLocal l (.checked m)
    else { h.setLocal l .ended with guards := update h.guards m none }
  | .checked m => (h.setLocal l (.holding m)).set l .held
  | .holding m =>
    if h.state l = .released ∨ h.active l = false ∧ h.owner l = none then
      h.setLocal l (.leaving m)
    else h
  | .leaving m => { h.setLocal l .releasing with guards := update h.guards m none }
  | .releasing => (h.setLocal l .ended).set l .released
  | _ => h

/-- The task of a local lease ends because it was notified. -/
def localAbort : Host :=
  match h.locals l with
  | .waiting _ => h.setLocal l .ended
  | _ => h

/-! ## The session task -/

/-- `needed.remove`: `needed` is a map by connection. -/
def removeNeeded : List ℕ :=
  h.session.needed.filter fun m => (h.leases m).connection ≠ (h.leases l).connection

def insertNeeded : List ℕ := l :: h.removeNeeded l

/-- The session opens, and the leases that are still active are to be acquired. -/
def connect : Host :=
  if h.session.phase = .down ∧ h.session.deferred = none ∧ h.session.needed ≠ [] ∧
      order.isPerm h.session.needed then
    { h with session := { h.session with
        phase := .idle, pending := order.filter fun l => h.active l
        locks := fun _ => 0, dead := false } }
  else h

/-- The next command, the deferred one or the next of the channel, and the host without it. -/
def nextCommand : Option (Command × Host) :=
  match h.session.deferred, h.channel with
  | some c, _ => some (c, { h with session := { h.session with deferred := none } })
  | none, c :: rest => some (c, { h with channel := rest })
  | none, [] => none

/-- A command taken while there is no session needs no statement. -/
def handleDown : Command → Host
  | .acquire l => { h with session := { h.session with needed := h.insertNeeded l } }
  | .release l =>
    { h.set l .released with session := { h.session with needed := h.removeNeeded l } }
  | .stop => { h with session := { h.session with phase := .ended } }

/-- The task takes a command, without a session or while nothing waits to be acquired. -/
def receive : Host :=
  match h.nextCommand with
  | some (c, h') =>
    match h.session.phase with
    | .down => h'.handleDown c
    | .idle =>
      if h.session.deferred ≠ none ∨ h.session.pending = [] then
        { h' with session := { h'.session with phase := .received c } }
      else h
    | _ => h
  | none => h

/-- The other leases that wait for the key of a released one. -/
def waitingFor : List ℕ :=
  order.filter fun m =>
    (h.leases m).key = (h.leases l).key ∧ h.active m = true ∧ m ∉ h.session.pending

/-- The task forgets a released lease, and the others of its key are to be acquired. -/
def finishRelease : Host :=
  if order.isPerm (h.removeNeeded l) then
    { h.set l .released with session := { h.session with
        phase := .idle, needed := h.removeNeeded l
        pending := h.session.pending ++ h.waitingFor l order } }
  else h

/-- The task handles a command that it received in a session. -/
def handle : Host :=
  match h.session.phase with
  | .received (.acquire l) =>
    { h with session := { h.session with
        phase := .idle, needed := h.insertNeeded l, pending := h.session.pending ++ [l] } }
  | .received (.release l) =>
    if h.state l = .held then
      { h with session := { h.session with phase := .unlocking l false } }
    else h.finishRelease l order
  | .received .stop => { h with session := { h.session with phase := .ended } }
  | _ => h

def otherHeld : Prop :=
  ∃ m ∈ h.session.needed, (h.leases m).connection ≠ (h.leases l).connection ∧
    (h.leases m).key = (h.leases l).key ∧ h.state m = .held

instance (h : Host) (l : ℕ) : Decidable (h.otherHeld l) := by
  unfold otherHeld
  infer_instance

/-- The next lease to acquire, unless it is revoked or its key is held. -/
def pop : Host :=
  match h.session.phase, h.session.deferred, h.session.pending with
  | .idle, none, l :: pending =>
    if h.active l = false ∨ h.otherHeld l then { h with session := { h.session with pending } }
    else { h with session := { h.session with phase := .acquiring l false, pending } }
  | _, _, _ => h

def acquired : Host :=
  match h.session.phase with
  | .acquiring l true => { h.set l .held with session := { h.session with phase := .idle } }
  | _ => h

/-- The locks after one more acquisition of the key of a lease. -/
def grantedLocks : String → ℕ :=
  update h.session.locks (h.leases l).key (h.session.locks (h.leases l).key + 1)

/-- The locks after one release of the key of a lease. -/
def unlockedLocks : String → ℕ :=
  update h.session.locks (h.leases l).key (h.session.locks (h.leases l).key - 1)

/-- The server executes the statement that the task waits for. -/
def execute : Host :=
  if h.session.dead then h
  else
    match h.session.phase with
    | .acquiring l false =>
      { h with session := { h.session with phase := .acquiring l true, locks := h.grantedLocks l } }
    | .cancelling l false c =>
      { h with session := { h.session with
          phase := .cancelling l true c, locks := h.grantedLocks l } }
    | .unlocking l false =>
      { h with session := { h.session with
          phase := .unlocking l true, locks := h.unlockedLocks l } }
    | _ => h

def die : Host := { h with session := { h.session with dead := true } }

/-- The task cancels a waiting acquire, for a command or because other leases wait. -/
def cancel (forCommand : Bool) : Host :=
  match h.session.phase, forCommand, h.channel with
  | .acquiring l granted, true, c :: rest =>
    { h with
      channel := rest
      session := { h.session with phase := .cancelling l granted (some c) } }
  | .acquiring l granted, false, _ =>
    if h.session.pending ≠ [] then
      { h with session := { h.session with phase := .cancelling l granted none } }
    else h
  | _, _, _ => h

/-- Where the task goes on after a cancelled acquire. -/
def afterCancel : Option Command → SessionPhase
  | some c => .received c
  | none => .idle

/-- The cancelled acquire has its result. -/
def cancelled (acquired : Bool) : Host :=
  match h.session.phase, acquired with
  | .cancelling l true command, true =>
    { h.set l .held with session := { h.session with phase := afterCancel command } }
  | .cancelling l granted command, false =>
    if granted = false ∨ h.session.dead = true then
      { h with session := { h.session with
          phase := afterCancel command
          pending := if h.active l then h.session.pending ++ [l] else h.session.pending } }
    else h
  | _, _ => h

def unlocked : Host :=
  match h.session.phase with
  | .unlocking l true => h.finishRelease l order
  | _ => h

def lose : Host :=
  if order.isPerm h.session.needed then
    match h.session.phase with
    | .idle | .acquiring _ _ | .cancelling _ _ _ | .unlocking _ _ =>
      { h with session := { h.session with
          phase := .losing order, deferred := h.session.unhandled, pending := [] } }
    | _ => h
  else h

/-- The task marks the next lease as lost, counts its epoch up, or has marked all. -/
def mark : Host :=
  match h.session.phase with
  | .losing [] => { h with session := { h.session with phase := .down } }
  | .losing (l :: rest) =>
    if h.state l = .released then { h with session := { h.session with phase := .losing rest } }
    else { h.set l .lost with session := { h.session with phase := .counting l rest } }
  | .counting l rest =>
    { h with
      epoch := update h.epoch l (h.epoch l + 1)
      session := { h.session with phase := .losing rest } }
  | _ => h

end Host

def step (h : Host) : Action → Host
  | .enter i connection key isLocal => h.enter i connection key isLocal
  | .call i => h.callStep i
  | .drop i => h.dropCall i
  | .revoke connection => h.revoke connection
  | .retire l => h.retire l
  | .localStep l => h.localStep l
  | .localAbort l => h.localAbort l
  | .shutdown => { h with stopped := true }
  | .stop =>
    if h.stopped = true ∧ ∀ l < h.count, (h.leases l).isLocal = false → h.state l = .released then
      { h with channel := h.channel ++ [.stop] }
    else h
  | .connect order => h.connect order
  | .receive => h.receive
  | .handle order => h.handle order
  | .pop => h.pop
  | .acquired => h.acquired
  | .execute => h.execute
  | .die => h.die
  | .cancel forCommand => h.cancel forCommand
  | .cancelled acquired => h.cancelled acquired
  | .unlocked order => h.unlocked order
  | .lose order => h.lose order
  | .mark => h.mark

abbrev Host.run (h : Host) (actions : List Action) : Host :=
  actions.foldl step h

/-- Some interleaving of the tasks leads to the host. -/
def Host.Reachable (h : Host) : Prop :=
  ∃ actions, Host.start.run actions = h

end Wamn.ResourceLease
