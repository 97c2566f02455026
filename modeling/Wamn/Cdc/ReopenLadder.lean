import Mathlib.Algebra.Group.Nat.Defs
import Mathlib.Data.List.DropRight
import Mathlib.Order.MinMax

/-!
# The re-open ladder

Every re-open of a replication session goes through one ladder, which answers with a pause or stops
the reader: after too many re-opens in a row that committed nothing, or after too many of any kind
within a trailing window. The window is a queue that is pruned at its front, so its length bounds
the re-opens of *every* window of the whole history (`reopens_bounded`).
-/

namespace Wamn.Cdc.ReopenLadder

open List

/-- `Duration::MAX`, in nanoseconds like every duration and instant here. -/
def durationMax : ℕ := 2 ^ 64 * 10 ^ 9 - 1

structure Limits where
  maxConsecutive : ℕ
  rateWindow : ℕ
  rateCap : ℕ
  baseBackoff : ℕ
  maxBackoff : ℕ
  maxConsecutive_pos : 0 < maxConsecutive
  base_le_max : baseBackoff ≤ maxBackoff
  max_le : maxBackoff ≤ durationMax

def Limits.new : Limits where
  maxConsecutive := 10
  rateWindow := 60 * 10 ^ 9
  rateCap := 20
  baseBackoff := 10 ^ 9
  maxBackoff := 30 * 10 ^ 9
  maxConsecutive_pos := by decide
  base_le_max := by decide
  max_le := by decide

structure Ladder where
  consecutiveFailures : ℕ
  totalReopens : ℕ
  windowReopens : List ℕ
  deriving DecidableEq

def new : Ladder := ⟨0, 0, []⟩

inductive LadderStep where
  | backoff (pause : ℕ)
  | trip (reason : String)
  deriving DecidableEq

structure Reopen where
  now : ℕ
  commits : ℕ
  deriving DecidableEq

-- How `{:?}` writes a duration.
variable (debug : ℕ → String) (limits : Limits)

/-- The pause after `failures` unproductive re-opens in a row. -/
def pauseAfter (failures : ℕ) : ℕ :=
  min (min (limits.baseBackoff * 2 ^ min (failures - 1) 20) durationMax) limits.maxBackoff

/-- The ladder with a call counted and the front of its window pruned. -/
def counted (ladder : Ladder) (call : Reopen) : Ladder where
  consecutiveFailures := if 0 < call.commits then 0 else ladder.consecutiveFailures + 1
  totalReopens := ladder.totalReopens + 1
  windowReopens := (ladder.windowReopens ++ [call.now]).dropWhile
    fun front => limits.rateWindow < call.now - front

def verdict (ladder : Ladder) : LadderStep :=
  if limits.maxConsecutive ≤ ladder.consecutiveFailures then
    .trip (toString ladder.consecutiveFailures ++
      " consecutive re-opens with no committed transaction between them")
  else if limits.rateCap < ladder.windowReopens.length then
    .trip (toString ladder.windowReopens.length ++ " re-opens within " ++ debug limits.rateWindow ++
      " — a sustained flap")
  else .backoff (pauseAfter limits ladder.consecutiveFailures)

def noteReopen (ladder : Ladder) (call : Reopen) : LadderStep × Ladder :=
  let ladder := counted limits ladder call
  (verdict debug limits ladder, ladder)

/-- The pauses of a sequence of re-opens, while the ladder does not trip. -/
def noteReopens : Ladder → List Reopen → Option (List ℕ × Ladder)
  | ladder, [] => some ([], ladder)
  | ladder, call :: calls =>
    match noteReopen debug limits ladder call with
    | (.trip _, _) => none
    | (.backoff pause, ladder) =>
      (noteReopens ladder calls).map fun rest => (pause :: rest.1, rest.2)

variable {debug limits} {ladder ladder' : Ladder} {call : Reopen} {pause last : ℕ}

lemma verdict_backoff (h : verdict debug limits ladder = .backoff pause) :
    ladder.consecutiveFailures < limits.maxConsecutive ∧
      ladder.windowReopens.length ≤ limits.rateCap ∧
      pause = pauseAfter limits ladder.consecutiveFailures := by
  rw [verdict] at h
  split at h
  · cases h
  · split at h
    · cases h
    · rename_i hfailures hwindow
      exact ⟨Nat.lt_of_not_le hfailures, Nat.le_of_not_lt hwindow, (LadderStep.backoff.inj h).symm⟩

/-! ## Pauses -/

lemma pauseAfter_mem (failures : ℕ) :
    limits.baseBackoff ≤ pauseAfter limits failures ∧
      pauseAfter limits failures ≤ limits.maxBackoff := by
  have hpow : limits.baseBackoff ≤ limits.baseBackoff * 2 ^ min (failures - 1) 20 :=
    Nat.le_mul_of_pos_right _ (Nat.two_pow_pos _)
  have hmax := limits.base_le_max
  exact ⟨le_min (le_min hpow (hmax.trans limits.max_le)) hmax, min_le_right _ _⟩

lemma pauseAfter_mono : Monotone (pauseAfter limits) := by
  intro failures failures' h
  have hpow : 2 ^ min (failures - 1) 20 ≤ 2 ^ min (failures' - 1) 20 :=
    Nat.pow_le_pow_right (by decide) (by omega)
  exact min_le_min (min_le_min (Nat.mul_le_mul_left _ hpow) le_rfl) le_rfl

/-! ## The ladder's state describes the past -/

/-- Dropping the front removes all that satisfies `p`, if nothing does after something that does
not. -/
theorem dropWhile_eq_filter {α : Type} {p : α → Bool} {l : List α}
    (h : l.Pairwise fun x y => p y → p x) : l.dropWhile p = l.filter fun x => !p x := by
  induction l with
  | nil => rfl
  | cons x l ih =>
    obtain ⟨hx, hl⟩ := pairwise_cons.1 h
    by_cases hp : p x
    · rw [dropWhile_cons_of_pos hp, filter_cons_of_neg (by simpa using hp), ih hl]
    · rw [dropWhile_cons_of_neg hp, eq_comm, filter_eq_self]
      have hrest : ∀ y ∈ l, !p y := fun y hy => by simpa using mt (hx y hy) hp
      exact forall_mem_cons.2 ⟨by simpa using hp, hrest⟩

/-- A call with the pause it was answered with. -/
abbrev Entry := Reopen × ℕ

def Entry.unproductive (entry : Entry) : Bool := entry.1.commits = 0

variable (limits) in
/-- What the ladder's state says of the past, when the last call was at `last`. -/
structure Tracks (ladder : Ladder) (past : List Entry) (last : ℕ) : Prop where
  total : ladder.totalReopens = past.length
  failures : ladder.consecutiveFailures = (past.rtakeWhile Entry.unproductive).length
  ordered : (past.map (·.1.now)).Pairwise (· ≤ ·)
  before : ∀ entry ∈ past, entry.1.now ≤ last
  window : ladder.windowReopens =
    (past.map (·.1.now)).filter fun time => last - time ≤ limits.rateWindow
  /-- The pauses of the current unproductive run. -/
  current : ∀ entry ∈ past.rtakeWhile Entry.unproductive,
    entry.2 ≤ pauseAfter limits ladder.consecutiveFailures

lemma Tracks.counted {past : List Entry} (h : Tracks limits ladder past last)
    (hlast : last ≤ call.now) : Tracks limits (counted limits ladder call)
      (past ++ [(call, pauseAfter limits (counted limits ladder call).consecutiveFailures)])
      call.now := by
  have hbefore : ∀ entry ∈ past, entry.1.now ≤ call.now :=
    fun entry hentry => (h.before entry hentry).trans hlast
  have hordered : (past.map (·.1.now) ++ [call.now]).Pairwise (· ≤ ·) := by
    refine pairwise_append.2 ⟨h.ordered, pairwise_singleton _ _, ?_⟩
    simpa only [forall_mem_singleton, forall_mem_map] using hbefore
  have hqueue : (ladder.windowReopens ++ [call.now]).Pairwise (· ≤ ·) :=
    hordered.sublist (h.window ▸ filter_sublist.append_right _)
  refine ⟨?_, ?_, ?_, ?_, ?_, ?_⟩
  · simp [ReopenLadder.counted, h.total]
  · by_cases hcommits : 0 < call.commits
    · simp [ReopenLadder.counted, hcommits, Entry.unproductive, hcommits.ne']
    · simp [ReopenLadder.counted, Entry.unproductive, Nat.eq_zero_of_not_pos hcommits, h.failures]
  · simpa using hordered
  · exact forall_mem_append.2 ⟨hbefore, forall_mem_singleton.2 le_rfl⟩
  · have hprune : (ladder.windowReopens ++ [call.now]).dropWhile
        (fun front => limits.rateWindow < call.now - front) =
          (ladder.windowReopens ++ [call.now]).filter fun x => !limits.rateWindow < call.now - x :=
      dropWhile_eq_filter (hqueue.imp fun hle hold => by
        simp only [decide_eq_true_eq] at hold ⊢
        omega)
    have hkept : (past.map (·.1.now)).filter (fun x =>
        !limits.rateWindow < call.now - x && last - x ≤ limits.rateWindow) =
          (past.map (·.1.now)).filter fun x => call.now - x ≤ limits.rateWindow := by
      refine filter_congr fun time _ => ?_
      simp only [← decide_not, ← Bool.decide_and, decide_eq_decide]
      omega
    refine hprune.trans ?_
    rw [h.window, filter_append, filter_filter, hkept, map_append, filter_append]
    simp
  · by_cases hcommits : 0 < call.commits
    · simp [Entry.unproductive, hcommits.ne']
    · have hmono : pauseAfter limits ladder.consecutiveFailures ≤
          pauseAfter limits (ladder.consecutiveFailures + 1) := pauseAfter_mono (Nat.le_succ _)
      have hunproductive : Entry.unproductive (call, pauseAfter limits
          (ReopenLadder.counted limits ladder call).consecutiveFailures) :=
        decide_eq_true (Nat.eq_zero_of_not_pos hcommits)
      rw [rtakeWhile_concat_pos _ _ _ hunproductive]
      simp only [forall_mem_append, forall_mem_singleton, ReopenLadder.counted, hcommits,
        if_false]
      exact ⟨fun entry hentry => (h.current entry hentry).trans hmono, le_rfl⟩

variable (limits) in
/-- What a past without a trip satisfies. -/
structure Calm (past : List Entry) : Prop where
  pauses : ∀ entry ∈ past, limits.baseBackoff ≤ entry.2 ∧ entry.2 ≤ limits.maxBackoff
  rate : ∀ t, past.countP (fun entry => t ≤ entry.1.now ∧ entry.1.now ≤ t + limits.rateWindow) ≤
    limits.rateCap
  productive : ∀ run, run <:+: past → run.length = limits.maxConsecutive →
    ∃ entry ∈ run, 0 < entry.1.commits
  growing : ∀ run, run <:+: past → (∀ entry ∈ run, entry.1.commits = 0) →
    (run.map (·.2)).Pairwise (· ≤ ·)

lemma suffix_rtakeWhile {α : Type} {p : α → Bool} {l run : List α} (h : run <:+ l)
    (hall : ∀ x ∈ run, p x) : run <:+ l.rtakeWhile p := by
  obtain ⟨front, rfl⟩ := h
  rw [List.rtakeWhile, reverse_append, takeWhile_append_of_pos (by simpa using hall),
    reverse_append, reverse_reverse]
  exact suffix_append _ _

lemma Calm.concat {past : List Entry} {entry : Entry} (h : Calm limits past)
    (htracks : Tracks limits ladder (past ++ [entry]) entry.1.now)
    (hfailures : ladder.consecutiveFailures < limits.maxConsecutive)
    (hwindow : ladder.windowReopens.length ≤ limits.rateCap)
    (hpause : entry.2 = pauseAfter limits ladder.consecutiveFailures) :
    Calm limits (past ++ [entry]) := by
  refine ⟨?_, ?_, ?_, ?_⟩
  · simp only [forall_mem_append, forall_mem_singleton, hpause]
    exact ⟨h.pauses, pauseAfter_mem _⟩
  · intro t
    by_cases hin : t ≤ entry.1.now ∧ entry.1.now ≤ t + limits.rateWindow
    · -- The window that ends now contains the given one.
      refine le_trans ?_ hwindow
      rw [htracks.window, ← countP_eq_length_filter, countP_map]
      refine countP_mono_left fun other hother hwithin => ?_
      simp only [decide_eq_true_eq, Function.comp_apply] at hwithin ⊢
      omega
    · rw [countP_append, countP_singleton, if_neg (by simpa using hin)]
      exact h.rate t
  · intro run hrun hlength
    rcases infix_concat_iff.1 hrun with hsuffix | hwithin
    · by_contra hnone
      have hall : ∀ other ∈ run, Entry.unproductive other := by
        intro other hother
        have := fun hcommits => hnone ⟨other, hother, hcommits⟩
        simpa [Entry.unproductive] using this
      have := (suffix_rtakeWhile hsuffix hall).length_le
      rw [← htracks.failures] at this
      omega
    · exact h.productive run hwithin hlength
  · intro run hrun hall
    rcases infix_concat_iff.1 hrun with hsuffix | hwithin
    · rcases suffix_concat_iff.1 hsuffix with rfl | ⟨front, rfl, hfront⟩
      · exact List.Pairwise.nil
      · have hcurrent : ∀ other ∈ front ++ [entry], other.2 ≤ entry.2 := by
          intro other hother
          rw [hpause]
          exact htracks.current other ((suffix_rtakeWhile hsuffix fun x hx =>
            decide_eq_true (hall x hx)).subset hother)
        have hgrowing := h.growing front hfront.isInfix fun x hx => hall x (by simp [hx])
        rw [map_append, pairwise_append]
        refine ⟨hgrowing, pairwise_singleton _ _, ?_⟩
        simp only [forall_mem_map, forall_mem_singleton]
        exact fun other hother => hcurrent other (mem_append_left _ hother)
    · exact h.growing run hwithin hall

lemma calm_nil : Calm limits [] := by
  refine ⟨by simp, by simp, fun run hrun hlength => ?_, by simp_all⟩
  have := limits.maxConsecutive_pos
  simp_all

lemma noteReopens_calm {calls : List Reopen} {pauses : List ℕ} {past : List Entry}
    (hclock : (last :: calls.map (·.now)).Pairwise (· ≤ ·))
    (h : noteReopens debug limits ladder calls = some (pauses, ladder'))
    (htracks : Tracks limits ladder past last) (hcalm : Calm limits past) :
    pauses.length = calls.length ∧
      ∃ last', Tracks limits ladder' (past ++ calls.zip pauses) last' ∧
        Calm limits (past ++ calls.zip pauses) := by
  induction calls generalizing ladder pauses past last with
  | nil =>
    obtain ⟨rfl, rfl⟩ := Prod.ext_iff.1 (Option.some.inj h)
    exact ⟨rfl, last, by simpa using htracks, by simpa using hcalm⟩
  | cons call calls ih =>
    rw [noteReopens, noteReopen] at h
    split at h
    · cases h
    · rename_i pause counted hstep
      obtain ⟨hverdict, rfl⟩ := Prod.ext_iff.1 hstep
      obtain ⟨hfailures, hwindow, rfl⟩ := verdict_backoff hverdict
      obtain ⟨⟨rest, final⟩, hrest, hpair⟩ := Option.map_eq_some_iff.1 h
      obtain ⟨rfl, rfl⟩ := Prod.ext_iff.1 hpair
      obtain ⟨hlast, hclock⟩ := pairwise_cons.1 hclock
      have htracks' := htracks.counted (hlast call.now (by simp))
      have hcalm' := hcalm.concat htracks' hfailures hwindow rfl
      obtain ⟨hlength, last', hresult⟩ := ih hclock hrest htracks' hcalm'
      refine ⟨by simpa using hlength, last', ?_⟩
      simpa using hresult

/-- Re-opens that never trip the ladder are at most `rateCap` in any window of time, with a commit
in any `maxConsecutive` of them, and pauses within bounds that do not decrease along an unproductive
run. -/
theorem reopens_bounded {calls : List Reopen} {pauses : List ℕ}
    (hclock : (calls.map (·.now)).Pairwise (· ≤ ·))
    (h : noteReopens debug limits new calls = some (pauses, ladder)) :
    (∀ t, calls.countP (fun call => t ≤ call.now ∧ call.now ≤ t + limits.rateWindow) ≤
        limits.rateCap) ∧
      (∀ run, run <:+: calls → run.length = limits.maxConsecutive →
        ∃ call ∈ run, 0 < call.commits) ∧
      pauses.length = calls.length ∧
      (∀ pause ∈ pauses, limits.baseBackoff ≤ pause ∧ pause ≤ limits.maxBackoff) ∧
      (∀ run, run <:+: calls.zip pauses → (∀ entry ∈ run, entry.1.commits = 0) →
        (run.map (·.2)).Pairwise (· ≤ ·)) ∧
      ladder.totalReopens = calls.length := by
  have hnew : Tracks limits new [] 0 :=
    ⟨rfl, rfl, List.Pairwise.nil, by simp, rfl, by simp⟩
  obtain ⟨hlength, _, htracks, hcalm⟩ :=
    noteReopens_calm (pairwise_cons.2 ⟨by simp, hclock⟩) h hnew calm_nil
  rw [nil_append] at htracks hcalm
  have hcalls : (calls.zip pauses).map Prod.fst = calls := map_fst_zip hlength.ge
  have hpauses : (calls.zip pauses).map Prod.snd = pauses := map_snd_zip hlength.le
  refine ⟨fun t => ?_, fun run hrun hrunlength => ?_, hlength, fun pause hpause => ?_,
    hcalm.growing, ?_⟩
  · rw [← hcalls, countP_map]
    exact hcalm.rate t
  · rw [← hcalls] at hrun
    obtain ⟨run, hwithin, rfl⟩ := infix_map_iff.1 hrun
    obtain ⟨entry, hentry, hcommits⟩ := hcalm.productive run hwithin (by simpa using hrunlength)
    exact ⟨entry.1, mem_map_of_mem hentry, hcommits⟩
  · rw [← hpauses] at hpause
    obtain ⟨entry, hentry, rfl⟩ := mem_map.1 hpause
    exact hcalm.pauses entry hentry
  · rw [htracks.total, length_zip, hlength, min_self]

/-- Two failed opens and one session that commits, with the reader's own limits. -/
theorem Sample.reopens_bounded_three :
    let calls : List Reopen := [⟨0, 0⟩, ⟨10 ^ 9, 0⟩, ⟨5 * 10 ^ 9, 3⟩]
    ∀ t, calls.countP (fun call => t ≤ call.now ∧ call.now ≤ t + Limits.new.rateWindow) ≤ 20 :=
  (reopens_bounded (by decide) (show noteReopens (fun _ => "60s") Limits.new new _ =
    some ([10 ^ 9, 2 * 10 ^ 9, 10 ^ 9], ⟨0, 3, [0, 10 ^ 9, 5 * 10 ^ 9]⟩) by decide)).1

end Wamn.Cdc.ReopenLadder
