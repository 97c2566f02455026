import Wamn.Admission.System

/-!
# What an idempotency key tells apart

Manual starts, schedules and events write keys of three forms into one unique index. Only the event
form quotes its parts. The schedule form joins application and workflow id with a slash that both
may contain, and the manual form leaves the application out.
-/

namespace Wamn.Admission

open List Lib Lib.Json Lib.Text RunState Runtime

/-! ## Admissions by their coordinates -/

/-- A manual start, as `start_workflow` accepts it from a named caller. -/
structure ManualStart where
  user : String
  application : String
  workflowId : String
  clientKey : String
  user_ne : user ≠ ""
  application_ne : application ≠ ""
  workflowId_ne : workflowId ≠ ""
  clientKey_ne : clientKey ≠ ""

/-- What an admission is for. -/
inductive Coordinates where
  | manual (start : ManualStart)
  | schedule (application workflowId : String) (due : ℤ)
  | event (environment application workflowId : String) (sequence : ℕ) (sourceEventId : String)

/-- The spelling of moments in RFC 3339 with whole seconds, such as `2026-10-20T14:15:00Z`:
injective, with two colons. -/
structure SpellsMoments (dueText : ℤ → String) : Prop where
  injective : Function.Injective dueText
  colons : ∀ due, (dueText due).toList.count ':' = 2

namespace Coordinates

/-- The key under which the run is admitted. -/
def idempotencyKey (dueText : ℤ → String) : Coordinates → String
  | manual s => manualKey s.user s.workflowId s.clientKey
  | schedule application workflowId due => scheduleKey application workflowId (dueText due)
  | event environment application workflowId sequence sourceEventId =>
    eventKey environment application workflowId (eventDelivery sequence sourceEventId)

/-- No other admission has this key. -/
def Identified (dueText : ℤ → String) (a : Coordinates) : Prop :=
  ∀ b : Coordinates, b.idempotencyKey dueText = a.idempotencyKey dueText → b = a

/-- Admissions of events, and of schedules whose application and workflow id contain no slash. -/
def Separable : Coordinates → Prop
  | manual _ => False
  | schedule application workflowId _ => '/' ∉ application.toList ∧ '/' ∉ workflowId.toList
  | event _ _ _ _ _ => True

end Coordinates

/-! ## The three forms of keys -/

lemma toList_manualKey (user workflowId clientKey : String) :
    ∃ rest, (manualKey user workflowId clientKey).toList = 'm' :: rest := by
  simp [manualKey]

lemma toList_scheduleKey (application workflowId due : String) :
    (scheduleKey application workflowId due).toList =
      's' :: ("chedule:".toList ++ ((application.toList ++ '/' :: workflowId.toList) ++
        ':' :: due.toList)) := by
  simp [scheduleKey]

lemma toList_eventKey (environment application workflowId delivery : String) :
    ∃ rest, (eventKey environment application workflowId delivery).toList = '[' :: rest :=
  ⟨_, String.toList_ofList⟩

lemma eventDelivery_inj {sequence sequence' : ℕ} {source source' : String}
    (h : eventDelivery sequence source = eventDelivery sequence' source') :
    sequence = sequence' ∧ source = source' := by
  have hlist : sequence.repr.toList ++ ':' :: source.toList =
      sequence'.repr.toList ++ ':' :: source'.toList := by
    simpa [eventDelivery, toString] using congrArg String.toList h
  -- The number ends at the first colon, whatever the source event contains.
  obtain ⟨hsequence, hsource⟩ := append_cons_inj_of_notMem (notMem_repr (by decide) _)
    (notMem_repr (by decide) _) hlist
  exact ⟨Decimal.repr_injective (String.toList_inj.1 hsequence), String.toList_inj.1 hsource⟩

lemma eventKey_inj {environment environment' application application' workflowId workflowId'
      source source' : String} {sequence sequence' : ℕ}
    (h : eventKey environment application workflowId (eventDelivery sequence source) =
      eventKey environment' application' workflowId' (eventDelivery sequence' source')) :
    environment = environment' ∧ application = application' ∧ workflowId = workflowId' ∧
      sequence = sequence' ∧ source = source' := by
  have hparts := jsonStrings_injective h
  simp only [List.cons.injEq, true_and, and_true] at hparts
  obtain ⟨henvironment, happlication, hworkflow, hdelivery⟩ := hparts
  exact ⟨henvironment, happlication, hworkflow, eventDelivery_inj hdelivery⟩

/-- Schedule keys determine the moment, and application and workflow id up to the place of the
slash. -/
theorem scheduleKey_inj {dueText : ℤ → String} (hdue : SpellsMoments dueText)
    {application application' workflowId workflowId' : String} {due due' : ℤ} :
    scheduleKey application workflowId (dueText due) =
        scheduleKey application' workflowId' (dueText due') ↔
      application.toList ++ '/' :: workflowId.toList =
        application'.toList ++ '/' :: workflowId'.toList ∧ due = due' := by
  constructor
  · intro h
    have hlist := congrArg String.toList h
    rw [toList_scheduleKey, toList_scheduleKey] at hlist
    have hjoined := append_cancel_left (List.cons.inj hlist).2
    -- The last three colons are the joint and those of the moment.
    have hcount := (hdue.colons due).trans (hdue.colons due').symm
    obtain ⟨hnames, hdues⟩ := append_cons_inj_of_count hcount hjoined
    exact ⟨hnames, hdue.injective (String.toList_inj.1 hdues)⟩
  · rintro ⟨hnames, rfl⟩
    apply String.toList_inj.1
    rw [toList_scheduleKey, toList_scheduleKey, hnames]

/-! ## Which keys identify their admission -/

namespace Coordinates

variable {dueText : ℤ → String}

/-- The first letter of the key. -/
def mark : Coordinates → Char
  | manual _ => 'm'
  | schedule _ _ _ => 's'
  | event _ _ _ _ _ => '['

lemma toList_idempotencyKey (dueText : ℤ → String) (a : Coordinates) :
    ∃ rest, (a.idempotencyKey dueText).toList = a.mark :: rest := by
  cases a with
  | manual s => exact toList_manualKey s.user s.workflowId s.clientKey
  | schedule application workflowId due => exact ⟨_, toList_scheduleKey ..⟩
  | event => exact toList_eventKey ..

lemma mark_eq_of_key {a b : Coordinates}
    (h : b.idempotencyKey dueText = a.idempotencyKey dueText) : b.mark = a.mark := by
  obtain ⟨rest, ha⟩ := toList_idempotencyKey dueText a
  obtain ⟨rest', hb⟩ := toList_idempotencyKey dueText b
  rw [h, ha] at hb
  exact (List.cons.inj hb).1.symm

lemma not_identified_manual (s : ManualStart) : ¬ (manual s).Identified dueText := by
  intro hidentified
  -- The application is not in the key, so another one gives a second start with it.
  let other : ManualStart := { s with
    application := s.application ++ "'"
    application_ne := by simp }
  have hsame : manual other = manual s := hidentified (manual other) rfl
  have happlication : s.application ++ "'" = s.application :=
    congrArg ManualStart.application (manual.inj hsame)
  simpa using congrArg String.length happlication

lemma not_identified_schedule (hdue : SpellsMoments dueText) {application workflowId : String}
    {due : ℤ} (hslash : '/' ∈ application.toList ∨ '/' ∈ workflowId.toList) :
    ¬ (schedule application workflowId due).Identified dueText := by
  intro hidentified
  rcases hslash with hslash | hslash
  · obtain ⟨front, back, hsplit⟩ := append_of_mem hslash
    -- Move the joint to the slash inside the application.
    have hsame := hidentified
      (schedule (.ofList front) (.ofList (back ++ '/' :: workflowId.toList)) due)
      ((scheduleKey_inj hdue).2 ⟨by simp [hsplit], rfl⟩)
    have hfront : String.ofList front = application := (schedule.inj hsame).1
    rw [← hfront, String.toList_ofList] at hsplit
    simpa using congrArg List.length hsplit
  · obtain ⟨front, back, hsplit⟩ := append_of_mem hslash
    -- Move the joint to the slash inside the workflow id.
    have hsame := hidentified
      (schedule (.ofList (application.toList ++ '/' :: front)) (.ofList back) due)
      ((scheduleKey_inj hdue).2 ⟨by simp [hsplit], rfl⟩)
    have hback : String.ofList back = workflowId := (schedule.inj hsame).2.1
    rw [← hback, String.toList_ofList] at hsplit
    have hlength := congrArg List.length hsplit
    simp only [length_append, length_cons] at hlength
    omega

lemma identified_schedule (hdue : SpellsMoments dueText) {application workflowId : String}
    {due : ℤ} (happlication : '/' ∉ application.toList) (hworkflow : '/' ∉ workflowId.toList) :
    (schedule application workflowId due).Identified dueText := by
  intro b hkey
  cases b with
  | manual | event => exact absurd (mark_eq_of_key hkey) (by simp [mark])
  | schedule application' workflowId' due' =>
    obtain ⟨hnames, rfl⟩ := (scheduleKey_inj hdue).1 hkey
    -- Both sides have one slash in all, the joint.
    have hcount := congrArg (List.count '/') hnames
    simp only [count_append, count_cons_self,
      count_eq_zero_of_not_mem happlication, count_eq_zero_of_not_mem hworkflow] at hcount
    obtain ⟨happlication', hworkflow'⟩ := append_cons_inj_of_count
      (by rw [count_eq_zero_of_not_mem hworkflow]; omega) hnames
    rw [String.toList_inj.1 happlication', String.toList_inj.1 hworkflow']

lemma identified_event (environment application workflowId : String) (sequence : ℕ)
    (sourceEventId : String) :
    (event environment application workflowId sequence sourceEventId).Identified dueText := by
  intro b hkey
  cases b with
  | manual | schedule => exact absurd (mark_eq_of_key hkey) (by simp [mark])
  | event =>
    -- The key is a JSON array, so no character of a part can end it.
    obtain ⟨rfl, rfl, rfl, rfl, rfl⟩ := eventKey_inj hkey
    rfl

/-- An admission shares its key with no other admission exactly if it is of an event, or of a
schedule whose application and workflow id contain no slash. -/
theorem key_identifies_iff (hdue : SpellsMoments dueText) (a : Coordinates) :
    a.Identified dueText ↔ a.Separable := by
  cases a with
  | manual s => exact ⟨fun h => not_identified_manual s h, False.elim⟩
  | schedule application workflowId due =>
    refine ⟨fun h => ?_, fun ⟨happlication, hworkflow⟩ =>
      identified_schedule hdue happlication hworkflow⟩
    by_contra hslash
    exact not_identified_schedule hdue (Decidable.or_iff_not_not_and_not.2 hslash) h
  | event environment application workflowId sequence sourceEventId =>
    exact ⟨fun _ => trivial, fun _ =>
      identified_event environment application workflowId sequence sourceEventId⟩

end Coordinates

namespace Sample

open RunPlane.Sample

lemma spellsMoments_dueText : SpellsMoments library.dueText where
  injective due due' h := Rfc3339.secondsText_injective (String.ofList_inj.1 h)
  colons due := by
    show (String.ofList (Rfc3339.secondsText due)).toList.count ':' = 2
    rw [String.toList_ofList, Rfc3339.count_colon_secondsText]

/-- No other admission has the key of the run of `sync` in `orders` that is due at two at night. -/
theorem nightly_sync_is_identified :
    (Coordinates.schedule "orders" "sync" 7200).idempotencyKey library.dueText =
        "schedule:orders/sync:1970-01-01T02:00:00Z" ∧
      (Coordinates.schedule "orders" "sync" 7200).Identified library.dueText :=
  ⟨by decide +kernel, (Coordinates.key_identifies_iff spellsMoments_dueText _).2
    (by simp [Coordinates.Separable])⟩

/-- A release that serves every graph to these applications. -/
def release (applications : List (String × List String)) : LoadedRelease Unit where
  envKey := "acme"
  project := "shop"
  environment := "dev"
  applications := applications
  manifestDigest := digest
  manifest := ⟨fun _ _ => .ok digest, fun _ _ => .ok []⟩

/-- A start of `sync` in an application, by the user `u1` under the client key `k1`. -/
def start (application : String) (id : RunId) (p : Plane Value) :
    Except StartRefusal (RunId × Plane Value) :=
  startWorkflow .identity library (release [("erp", []), ("wms", [])]) (admissionTurn id)
    ⟨"u1", some "clerk"⟩
    (some ⟨1, (), digest, "invoker", none⟩) ⟨application, "sync", "k1", .null⟩ p

/-- A start in one application answers the run that a start in another one admitted. -/
theorem start_answers_another_applications_run :
    ∃ p r, start "erp" "r1" .empty = .ok ("r1", p) ∧ start "wms" "r2" p = .ok ("r1", p) ∧
      p.run "r1" = some r ∧ r.packageId = "erp" :=
  ⟨_, _, rfl, rfl, rfl, rfl⟩

end Sample

end Wamn.Admission
