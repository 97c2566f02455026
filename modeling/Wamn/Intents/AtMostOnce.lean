import Wamn.Intents.Store

/-!
# An intent runs at most once

`Effect` says what a committed request can do to the table: nothing, add an open row under a free
key, settle the open row of an id, or delete it. So a settled row keeps its answer, a key keeps its
row until a release deletes it, and only `resolve` writes a basis, which `begin` can read. Calls
interleave, fail in the storage, and answer where nobody hears.
-/

namespace Wamn.Intents

open List Lib Lib.Decimal Lib.Json

/-! ## Rows -/

namespace IntentRow

lemma isOpen_iff {row : IntentRow} (hchecked : row.Checked) :
    row.isOpen = true ↔ row.outcome = none ∧ row.resolvedBasis = none := by
  obtain ⟨hfinished, hresolved, -⟩ := hchecked
  unfold isOpen
  rw [hfinished, ← hresolved, Bool.and_eq_true, Option.isNone_iff_eq_none,
    Option.isNone_iff_eq_none]

lemma outcome_eq_none {row : IntentRow} (hchecked : row.Checked)
    (hbasis : row.resolvedBasis ≠ none) : row.outcome = none := by
  obtain ⟨hfinished, hresolved, hone⟩ := hchecked
  rcases hone with h | h
  · rwa [hfinished, Option.isNone_iff_eq_none] at h
  · rw [← hresolved, Option.isNone_iff_eq_none] at h
    exact absurd h hbasis

/-- The stored basis is one that `begin` can read. -/
def Readable (row : IntentRow) : Prop :=
  ∀ stored, row.resolvedBasis = some stored →
    ∃ basis : OperatorActionBasis, stored = basis.asStr

end IntentRow

namespace Table

variable {s s' : Table} {row : IntentRow} {id : ℤ}

/-! ## Tables -/

variable {key : String × String}

lemma lookup_eq_some : s.lookup key = some row ↔ row ∈ s.rows ∧ row.key = key :=
  Keyed.find?_eq_some s.unique_key

lemma lookup_eq_none : s.lookup key = none ↔ ∀ row ∈ s.rows, row.key ≠ key :=
  Keyed.find?_eq_none

lemma insert_eq_some {hchecked : row.Checked} (h : s.insert row hchecked = some s') :
    s.lookup row.key = none ∧ s'.rows = row :: s.rows := by
  unfold insert at h
  split at h
  · rename_i hfresh
    obtain rfl := Option.some.inj h
    refine ⟨lookup_eq_none.2 fun row' hrow' hkey => hfresh.2 ?_, rfl⟩
    exact hkey ▸ mem_map_of_mem hrow'
  · cases h

lemma hasOpen_iff : s.hasOpen id = true ↔ ∃ row ∈ s.rows, row.id = id ∧ row.isOpen = true := by
  simp [hasOpen]

lemma hasOpen_eq_false (hrow : row ∈ s.rows) (hsettled : row.isOpen = false) :
    s.hasOpen row.id = false := by
  rw [← Bool.not_eq_true, hasOpen_iff]
  rintro ⟨row', hrow', hid, hopen⟩
  rw [inj_on_of_nodup_map s.unique_id hrow' hrow hid, hsettled] at hopen
  cases hopen

end Table

/-! ## What a request does to the table -/

/-- The row as its `begin` inserted it. -/
def IntentRow.begun (row : IntentRow) : IntentRow :=
  { row with finishedAt := none, outcome := none, resolvedBasis := none, resolvedAt := none }

/-- What a committed request does to the table. -/
inductive Effect (moment : Moment) (request : Request) (s s' : Table) : Prop where
  | kept (heq : s' = s)
  | begun (intent : OwnedIntent) (now : ℤ) (hfresh : s.lookup intent.key = none)
      (hrows : s'.rows = newRow intent moment.rowid now :: s.rows)
  | settled (id : ℤ) (settle : IntentRow → IntentRow)
      (hbegun : ∀ row, (settle row).begun = row.begun)
      (hreadable : ∀ row, row.Readable → (settle row).Readable)
      (hrows : s'.rows =
        s.rows.map fun row => if row.id = id ∧ row.isOpen = true then settle row else row)
  | released (text : String) (id : ℤ) (hrequest : request = .release text)
      (hid : parseI64 text = some id)
      (hrows : s'.rows = s.rows.filter fun row => !(row.id = id && row.isOpen))

section Operations

variable {lib : Library} {moment : Moment} {s s' : Table} {text outcome : String} {n : ℤ}

lemma rowId_eq_ok {operation : String} :
    rowId lib operation text = .ok n ↔ parseI64 text = some n := by
  unfold rowId
  cases parseI64 text with
  | none => simp [throw, throwThe, MonadExceptOf.throw]
  | some m => simp [pure, Except.pure]

variable {intent : OwnedIntent} {begun : Begun String} {u : Unit}

/-- What a committed `begin` did: it answered a stored row, or inserted one and answered `New`. -/
theorem begin_eq_ok (h : begin lib moment intent s = .ok (begun, s')) :
    (∃ row, s.lookup intent.key = some row ∧ answerStored lib row intent.inputHash = .ok begun ∧
      s' = s) ∨
    (∃ now, s.lookup intent.key = none ∧ begun = .new (toString moment.rowid) ∧
      s'.rows = newRow intent moment.rowid now :: s.rows) := by
  unfold begin at h
  split at h
  · rename_i row hrow
    obtain ⟨answer, hanswer, h⟩ := bind_eq_ok.1 h
    obtain ⟨rfl, rfl⟩ := done_eq_ok.1 h
    exact .inl ⟨row, hrow, hanswer, rfl⟩
  · rename_i hnone
    obtain ⟨now, -, h⟩ := bind_eq_ok.1 h
    split at h
    · rename_i s'' hinsert
      obtain ⟨rfl, rfl⟩ := done_eq_ok.1 h
      exact .inr ⟨now, hnone, rfl, (Table.insert_eq_some hinsert).2⟩
    · cases h

lemma guarded_eq_ok {id : ℤ} {changed : Table} {refusal : StoreError}
    (h : (if s.hasOpen id then pure ((), changed) else throw refusal :
      Except StoreError (Unit × Table)) = .ok (u, s')) : s.hasOpen id = true ∧ s' = changed := by
  split at h
  · rename_i hopen
    obtain ⟨-, rfl⟩ := done_eq_ok.1 h
    exact ⟨hopen, rfl⟩
  · cases h

lemma finishTextIn_eq_ok (h : finishTextIn lib moment text outcome s = .ok (u, s')) :
    ∃ id now, parseI64 text = some id ∧ s.hasOpen id = true ∧ s'.rows = s.rows.map fun row =>
      if row.id = id ∧ row.isOpen = true then row.finish now outcome else row := by
  obtain ⟨id, hid, h⟩ := bind_eq_ok.1 h
  obtain ⟨now, -, h⟩ := bind_eq_ok.1 h
  obtain ⟨hopen, rfl⟩ := guarded_eq_ok h
  exact ⟨id, now, rowId_eq_ok.1 hid, hopen, rfl⟩

lemma resolve_eq_ok {basis : OperatorActionBasis}
    (h : resolve lib moment text basis s = .ok (u, s')) :
    ∃ id now, parseI64 text = some id ∧ s.hasOpen id = true ∧ s'.rows = s.rows.map fun row =>
      if row.id = id ∧ row.isOpen = true then row.resolve now basis else row := by
  obtain ⟨id, hid, h⟩ := bind_eq_ok.1 h
  obtain ⟨now, -, h⟩ := bind_eq_ok.1 h
  obtain ⟨hopen, rfl⟩ := guarded_eq_ok h
  exact ⟨id, now, rowId_eq_ok.1 hid, hopen, rfl⟩

lemma release_eq_ok (h : release lib text s = .ok (u, s')) :
    ∃ id, parseI64 text = some id ∧ s.hasOpen id = true ∧
      s'.rows = s.rows.filter fun row => !(row.id = id && row.isOpen) := by
  obtain ⟨id, hid, h⟩ := bind_eq_ok.1 h
  obtain ⟨hopen, rfl⟩ := guarded_eq_ok h
  exact ⟨id, rowId_eq_ok.1 hid, hopen, rfl⟩

/-- The open row of an id, and what a table that settles it holds in its place. -/
theorem exists_settled {id : ℤ} {settle : IntentRow → IntentRow} (hopen : s.hasOpen id = true)
    (hrows : s'.rows =
      s.rows.map fun row => if row.id = id ∧ row.isOpen = true then settle row else row) :
    ∃ row ∈ s.rows, row.id = id ∧ row.isOpen = true ∧ settle row ∈ s'.rows := by
  obtain ⟨row, hrow, hid, hrowOpen⟩ := Table.hasOpen_iff.1 hopen
  refine ⟨row, hrow, hid, hrowOpen, ?_⟩
  rw [hrows, mem_map]
  exact ⟨row, hrow, if_pos ⟨hid, hrowOpen⟩⟩

/-- Both forms of `begin` run the same transaction and differ in the form of the answer. -/
theorem begin_of_serve {intent : Intent} {answer : Answer}
    (hrequest : request = .beginText intent ∨ request = .begin intent)
    (h : serve lib moment request s = .ok (answer, s')) :
    ∃ owned begun, intent.owned = .ok owned ∧ begin lib moment owned s = .ok (begun, s') ∧
      (.text begun = answer ∨ ∃ value, begun.decoded lib = .ok value ∧ .json value = answer) := by
  rcases hrequest with rfl | rfl
  · obtain ⟨owned, howned, h⟩ := bind_eq_ok.1 h
    obtain ⟨⟨begun, s''⟩, hbegin, h⟩ := bind_eq_ok.1 h
    obtain ⟨hanswer, rfl⟩ := done_eq_ok.1 h
    exact ⟨owned, begun, howned, hbegin, .inl hanswer⟩
  · obtain ⟨owned, howned, h⟩ := bind_eq_ok.1 h
    obtain ⟨⟨begun, s''⟩, hbegin, h⟩ := bind_eq_ok.1 h
    obtain ⟨value, hvalue, h⟩ := bind_eq_ok.1 h
    obtain ⟨hanswer, rfl⟩ := done_eq_ok.1 h
    exact ⟨owned, begun, howned, hbegin, .inr ⟨value, hvalue, hanswer⟩⟩

lemma effect_begin (h : begin lib moment intent s = .ok (begun, s')) :
    Effect moment request s s' := by
  rcases begin_eq_ok h with ⟨row, -, -, rfl⟩ | ⟨now, hnone, -, hrows⟩
  · exact .kept rfl
  · exact .begun intent now hnone hrows

lemma effect_finishTextIn (h : finishTextIn lib moment text outcome s = .ok (u, s')) :
    Effect moment request s s' := by
  obtain ⟨id, now, -, -, hrows⟩ := finishTextIn_eq_ok h
  exact .settled id (fun row => row.finish now outcome) (fun _ => rfl) (fun _ h => h) hrows

lemma effect_serve {answer : Answer} (h : serve lib moment request s = .ok (answer, s')) :
    Effect moment request s s' := by
  cases request with
  | beginText intent =>
    obtain ⟨owned, begun, -, hbegin, -⟩ := begin_of_serve (.inl rfl) h
    exact effect_begin hbegin
  | begin intent =>
    obtain ⟨owned, begun, -, hbegin, -⟩ := begin_of_serve (.inr rfl) h
    exact effect_begin hbegin
  | finishText id outcome =>
    obtain ⟨⟨u, s''⟩, hfinish, h⟩ := bind_eq_ok.1 h
    obtain ⟨-, rfl⟩ := done_eq_ok.1 h
    exact effect_finishTextIn hfinish
  | finish id outcome =>
    obtain ⟨value, -, h⟩ := bind_eq_ok.1 h
    obtain ⟨⟨u, s''⟩, hfinish, h⟩ := bind_eq_ok.1 h
    obtain ⟨-, rfl⟩ := done_eq_ok.1 h
    exact effect_finishTextIn hfinish
  | release id =>
    obtain ⟨⟨u, s''⟩, hrelease, h⟩ := bind_eq_ok.1 h
    obtain ⟨-, rfl⟩ := done_eq_ok.1 h
    obtain ⟨n, hid, -, hrows⟩ := release_eq_ok hrelease
    exact .released id n rfl hid hrows
  | resolve id basis =>
    obtain ⟨⟨u, s''⟩, hresolve, h⟩ := bind_eq_ok.1 h
    obtain ⟨-, rfl⟩ := done_eq_ok.1 h
    obtain ⟨n, now, -, -, hrows⟩ := resolve_eq_ok hresolve
    refine .settled n (fun row => row.resolve now basis) (fun _ => rfl) ?_ hrows
    rintro row - stored hstored
    exact ⟨basis, (Option.some.inj hstored).symm⟩

end Operations

namespace Effect

variable {moment : Moment} {request : Request} {s s' : Table}

variable (h : Effect moment request s s')

include h

lemma mem_of_settled {row : IntentRow} (hrow : row ∈ s.rows) (hsettled : row.isOpen = false) :
    row ∈ s'.rows := by
  cases h with
  | kept heq => rwa [heq]
  | begun intent now hfresh hrows =>
    rw [hrows]
    exact mem_cons_of_mem _ hrow
  | settled id settle hbegun hreadable hrows =>
    rw [hrows, mem_map]
    exact ⟨row, hrow, by simp [hsettled]⟩
  | released text id hrequest hid hrows =>
    rw [hrows, mem_filter]
    exact ⟨hrow, by simp [hsettled]⟩

/-- What a row has from its `begin` stays in the table, unless the row is released. -/
theorem kept_or_released {α : Type} (f : IntentRow → α)
    (hf : ∀ row : IntentRow, f row.begun = f row) {row : IntentRow} (hrow : row ∈ s.rows) :
    (∃ row' ∈ s'.rows, f row' = f row) ∨
      ∃ text, request = .release text ∧ parseI64 text = some row.id ∧ row.isOpen = true := by
  cases h with
  | kept heq =>
    rw [heq]
    exact .inl ⟨row, hrow, rfl⟩
  | begun intent now hfresh hrows =>
    rw [hrows]
    exact .inl ⟨row, mem_cons_of_mem _ hrow, rfl⟩
  | settled id settle hbegun hreadable hrows =>
    rw [hrows]
    refine .inl ⟨_, mem_map_of_mem hrow, ?_⟩
    split
    · rw [← hf, hbegun, hf]
    · rfl
  | released text id hrequest hid hrows =>
    by_cases hdeleted : row.id = id ∧ row.isOpen = true
    · obtain ⟨rfl, hopen⟩ := hdeleted
      exact .inr ⟨text, hrequest, hid, hopen⟩
    · rw [hrows]
      refine .inl ⟨row, mem_filter.2 ⟨hrow, ?_⟩, rfl⟩
      rw [Bool.not_eq_true', ← Bool.not_eq_true]
      simpa using hdeleted

lemma readable (hs : ∀ row ∈ s.rows, row.Readable) : ∀ row ∈ s'.rows, row.Readable := by
  intro row hrow
  cases h with
  | kept heq => exact hs row (heq ▸ hrow)
  | begun intent now hfresh hrows =>
    rw [hrows] at hrow
    rcases mem_cons.1 hrow with rfl | hrow
    · intro stored hstored
      cases hstored
    · exact hs row hrow
  | settled id settle hbegun hreadable hrows =>
    rw [hrows] at hrow
    obtain ⟨old, hold, rfl⟩ := mem_map.1 hrow
    split
    · exact hreadable old (hs old hold)
    · exact hs old hold
  | released text id hrequest hid hrows =>
    rw [hrows] at hrow
    exact hs row (mem_of_mem_filter hrow)

end Effect

/-! ## Calls and runs -/

namespace Table

variable {lib : Library}

lemma effect_step (s : Table) (call : Call) :
    Effect call.moment call.request s (s.step lib call) := by
  have hcommit : Effect call.moment call.request s
      (commit (serve lib call.moment call.request) s) :=
    commit_rec (P := Effect call.moment call.request s) (.kept rfl) fun _ _ => effect_serve
  unfold step
  split
  · exact .kept rfl
  · exact hcommit

lemma readable_run (calls : List Call) : ∀ row ∈ (empty.run lib calls).rows, row.Readable := by
  refine invariant_foldl (I := fun s : Table => ∀ row ∈ s.rows, row.Readable) ?_ ?_ calls
  · intro s call hs
    exact (effect_step s call).readable hs
  · intro row hrow
    cases hrow

lemma mem_run_of_settled {s : Table} {row : IntentRow} (hrow : row ∈ s.rows)
    (hsettled : row.isOpen = false) (calls : List Call) : row ∈ (s.run lib calls).rows := by
  refine invariant_foldl (I := fun s : Table => row ∈ s.rows) ?_ hrow calls
  intro s call hmem
  exact (effect_step s call).mem_of_settled hmem hsettled

/-- A `begin` of the intent whose caller hears that it is new, under this id. -/
def AnswersNewId (lib : Library) (s : Table) (call : Call) (intent : Intent) (id : String) : Prop :=
  (call.request = .beginText intent ∧ s.answer lib call = some (.ok (.text (.new id)))) ∨
    (call.request = .begin intent ∧ s.answer lib call = some (.ok (.json (.new id))))

/-- The call is a `begin` of the key, and its caller hears that the key is new. -/
def AnswersNew (lib : Library) (s : Table) (call : Call) (key : String × String) : Prop :=
  ∃ intent : Intent, (intent.tenant, intent.idempotencyKey) = key ∧
    ∃ id, s.AnswersNewId lib call intent id

def Releases (s : Table) (call : Call) (key : String × String) : Prop :=
  ∃ text row, call.request = .release text ∧ s.lookup key = some row ∧
    parseI64 text = some row.id ∧ row.isOpen = true

end Table

def Request.Targets : Request → ℤ → Prop
  | .beginText _, _ | .begin _, _ => False
  | .finishText text _, id | .finish text _, id | .release text, id | .resolve text _, id =>
    parseI64 text = some id

section Answers

variable {lib : Library} {moment : Moment} {s s' : Table} {row : IntentRow}

lemma answerStored_ne_new {inputHash id : String} :
    answerStored lib row inputHash ≠ .ok (.new id) := by
  intro h
  unfold answerStored at h
  split at h
  · cases h
  · split at h
    · cases h
    · split at h <;> cases h
    · cases h

variable {intent : OwnedIntent} {begun : Begun String} {call : Call} {key : String × String}

lemma begin_new {id : String} (h : begin lib moment intent s = .ok (.new id, s')) :
    s.lookup intent.key = none ∧ ∃ row ∈ s'.rows, row.key = intent.key := by
  rcases begin_eq_ok h with ⟨row, -, hanswer, -⟩ | ⟨now, hnone, -, hrows⟩
  · exact absurd hanswer answerStored_ne_new
  · refine ⟨hnone, newRow intent moment.rowid now, ?_, rfl⟩
    rw [hrows]
    exact mem_cons_self

lemma decoded_eq_new {id : String} (h : begun.decoded lib = .ok (.new id)) : begun = .new id := by
  cases begun with
  | finished outcome =>
    obtain ⟨value, -, h⟩ := bind_eq_ok.1 h
    cases pure_eq_ok.1 h
  | _ =>
    cases pure_eq_ok.1 h
    try rfl

lemma key_of_owned {intent : Intent} {owned : OwnedIntent} (h : intent.owned = .ok owned) :
    owned.key = (intent.tenant, intent.idempotencyKey) := by
  unfold Intent.owned at h
  split at h
  · obtain rfl := pure_eq_ok.1 h
    rfl
  · cases h

lemma answer_eq_ok {answer : Answer} (h : s.answer lib call = some (.ok answer)) :
    serve lib call.moment call.request s = .ok (answer, s.step lib call) := by
  unfold Table.answer at h
  unfold Table.step
  split at h
  · rename_i hfate
    simp only [hfate]
    cases hserve : serve lib call.moment call.request s with
    | error e =>
      rw [hserve] at h
      cases h
    | ok result =>
      rw [hserve] at h
      have hfst : result.1 = answer := Except.ok.inj (Option.some.inj h)
      rw [commit_of_ok (b := result.1) hserve, ← hfst]
  · cases h
  · cases h

lemma begin_of_answer {intent : Intent} {id : String} (h : s.AnswersNewId lib call intent id) :
    ∃ owned, intent.owned = .ok owned ∧
      begin lib call.moment owned s = .ok (.new id, s.step lib call) := by
  rcases h with ⟨hrequest, hanswer⟩ | ⟨hrequest, hanswer⟩
  · obtain ⟨owned, begun, howned, hbegin, htext | ⟨value, -, hjson⟩⟩ :=
      begin_of_serve (.inl hrequest) (answer_eq_ok hanswer)
    · cases htext
      exact ⟨owned, howned, hbegin⟩
    · cases hjson
  · obtain ⟨owned, begun, howned, hbegin, htext | ⟨value, hvalue, hjson⟩⟩ :=
      begin_of_serve (.inr hrequest) (answer_eq_ok hanswer)
    · cases htext
    · cases hjson
      obtain rfl := decoded_eq_new hvalue
      exact ⟨owned, howned, hbegin⟩

lemma answersNew_spec (h : s.AnswersNew lib call key) :
    s.lookup key = none ∧ (s.step lib call).lookup key ≠ none := by
  obtain ⟨intent, rfl, id, hcall⟩ := h
  obtain ⟨owned, howned, hbegin⟩ := begin_of_answer hcall
  obtain ⟨hnone, row, hrow, hkey⟩ := begin_new hbegin
  rw [key_of_owned howned] at hnone hkey
  exact ⟨hnone, fun hfree => Table.lookup_eq_none.1 hfree row hrow hkey⟩

lemma releases_of_step (hbefore : s.lookup key ≠ none)
    (hafter : (s.step lib call).lookup key = none) : s.Releases call key := by
  obtain ⟨row, hlookup⟩ := Option.ne_none_iff_exists'.1 hbefore
  obtain ⟨hrow, hkey⟩ := Table.lookup_eq_some.1 hlookup
  rcases (Table.effect_step s call).kept_or_released IntentRow.key (fun _ => rfl) hrow with
    ⟨row', hrow', hkey'⟩ | hreleased
  · exact absurd (hkey'.trans hkey) (Table.lookup_eq_none.1 hafter row' hrow')
  · obtain ⟨text, hrequest, hid, hopen⟩ := hreleased
    exact ⟨text, row, hrequest, hlookup, hid, hopen⟩

lemma begin_of_stored (hrow : row ∈ s.rows) (hkey : intent.key = row.key)
    (hanswer : answerStored lib row intent.inputHash = .ok begun) :
    begin lib moment intent s = .ok (begun, s) := by
  have hlookup : s.lookup intent.key = some row := Table.lookup_eq_some.2 ⟨hrow, hkey.symm⟩
  unfold begin
  rw [hlookup]
  exact bind_eq_ok.2 ⟨begun, hanswer, rfl⟩

lemma serve_ne_ok_of_closed {request : Request} {result : Answer × Table} {n : ℤ}
    (hclosed : s.hasOpen n = false) (htargets : request.Targets n) :
    serve lib moment request s ≠ .ok result := by
  -- Every request names its row by text, and the row it names is not open.
  have hrefused : ∀ {text : String} {id : ℤ}, parseI64 text = some n →
      parseI64 text = some id → s.hasOpen id ≠ true := by
    intro text id htarget hid hopen
    rw [htarget] at hid
    obtain rfl := Option.some.inj hid
    exact Bool.false_ne_true (hclosed.symm.trans hopen)
  intro h
  cases request with
  | beginText intent | begin intent => exact htargets
  | finishText text outcome =>
    obtain ⟨⟨⟨⟩, s'⟩, hcommitted, -⟩ := bind_eq_ok.1 h
    obtain ⟨id, now, hid, hopen, -⟩ := finishTextIn_eq_ok hcommitted
    exact hrefused htargets hid hopen
  | finish text outcome =>
    obtain ⟨value, -, h⟩ := bind_eq_ok.1 h
    obtain ⟨⟨⟨⟩, s'⟩, hcommitted, -⟩ := bind_eq_ok.1 h
    obtain ⟨id, now, hid, hopen, -⟩ := finishTextIn_eq_ok hcommitted
    exact hrefused htargets hid hopen
  | release text =>
    obtain ⟨⟨⟨⟩, s'⟩, hcommitted, -⟩ := bind_eq_ok.1 h
    obtain ⟨id, hid, hopen, -⟩ := release_eq_ok hcommitted
    exact hrefused htargets hid hopen
  | resolve text basis =>
    obtain ⟨⟨⟨⟩, s'⟩, hcommitted, -⟩ := bind_eq_ok.1 h
    obtain ⟨id, now, hid, hopen, -⟩ := resolve_eq_ok hcommitted
    exact hrefused htargets hid hopen

lemma refused_of_closed {n : ℤ} (hclosed : s.hasOpen n = false)
    (htargets : call.request.Targets n) :
    s.step lib call = s ∧ ∀ answer, s.answer lib call ≠ some (.ok answer) := by
  have hrefused : ∀ result, serve lib call.moment call.request s ≠ .ok result :=
    fun result => serve_ne_ok_of_closed hclosed htargets
  constructor
  · unfold Table.step
    split
    · rfl
    · cases hserve : serve lib call.moment call.request s with
      | error e => exact commit_of_error hserve
      | ok result => exact absurd hserve (hrefused result)
  · intro answer hanswer
    exact hrefused _ (answer_eq_ok hanswer)

end Answers

/-! ## At most once -/

/-- `begin` with the hash of the row repeats what is stored, and no request changes it. -/
structure Final (lib : Library) (s : Table) (row : IntentRow) : Prop where
  stored : row ∈ s.rows
  finished : ∀ text, row.outcome = some text → ∀ moment intent, intent.key = row.key →
    intent.inputHash = row.inputHash → begin lib moment intent s = .ok (.finished text, s)
  resolved : ∀ stored, row.resolvedBasis = some stored → ∃ basis : OperatorActionBasis,
    basis.asStr = stored ∧ ∀ moment intent, intent.key = row.key →
      intent.inputHash = row.inputHash →
        begin lib moment intent s = .ok (.resolved (toString row.id) basis, s)
  refused : ∀ call : Call, call.request.Targets row.id →
    s.step lib call = s ∧ ∀ answer, s.answer lib call ≠ some (.ok answer)

lemma final_of_settled {lib : Library} {s : Table} {row : IntentRow} (hrow : row ∈ s.rows)
    (hsettled : row.isOpen = false) (hreadable : row.Readable) : Final lib s row where
  stored := hrow
  finished := by
    intro text htext moment intent hkey hhash
    refine begin_of_stored hrow hkey ?_
    simp [answerStored, hhash, htext, pure, Except.pure]
  resolved := by
    intro stored hstored
    obtain ⟨basis, rfl⟩ := hreadable stored hstored
    have houtcome : row.outcome = none :=
      IntentRow.outcome_eq_none (s.checked row hrow) (by simp [hstored])
    refine ⟨basis, rfl, fun moment intent hkey hhash => begin_of_stored hrow hkey ?_⟩
    simp [answerStored, hhash, houtcome, hstored, OperatorActionBasis.fromStr_asStr, pure,
      Except.pure]
  refused := by
    intro call htargets
    exact refused_of_closed (Table.hasOpen_eq_false hrow hsettled) htargets

/-- In every reachable table of the edge's intent store:

* two `begin`s of one key that both answer `New` have a release of the key's row between them;
* from the commit of a `finish` or `resolve` on, whatever happens, the row has its final answer, and
  that is the text or the basis it was settled with;
* a `begin` of a stored key with another input hash answers `Conflict` and changes nothing;
* a row is open, or finished, or resolved, and never two of these. -/
theorem at_most_once (lib : Library) (past : List Call) :
    let s := Table.empty.run lib past
    (∀ key first between last, s.AnswersNew lib first key →
      ((s.step lib first).run lib between).AnswersNew lib last key →
        ∃ before call after, between = before ++ call :: after ∧
          ((s.step lib first).run lib before).Releases call key) ∧
    (∀ moment id text s', finishTextIn lib moment id text s = .ok ((), s') →
      ∃ row ∈ s.rows, row.isOpen = true ∧ parseI64 id = some row.id ∧
        ∃ now, ∀ later, Final lib (s'.run lib later) (row.finish now text)) ∧
    (∀ moment id basis s', resolve lib moment id basis s = .ok ((), s') →
      ∃ row ∈ s.rows, row.isOpen = true ∧ parseI64 id = some row.id ∧
        ∃ now, ∀ later, Final lib (s'.run lib later) (row.resolve now basis)) ∧
    (∀ row ∈ s.rows, row.isOpen = false → ∀ later, Final lib (s.run lib later) row) ∧
    (∀ row ∈ s.rows, ∀ moment intent, intent.key = row.key → intent.inputHash ≠ row.inputHash →
      begin lib moment intent s = .ok (.conflict (toString row.id), s)) ∧
    (∀ row ∈ s.rows,
      (row.isOpen = true ↔ row.outcome = none ∧ row.resolvedBasis = none) ∧
      (row.outcome = none ∨ row.resolvedBasis = none)) := by
  intro s
  refine ⟨?_, ?_, ?_, ?_, ?_, ?_⟩
  · intro key first between last hfirst hlast
    -- The key has a row after the first call and none before the last, so some call freed it.
    obtain ⟨before, call, after, rfl, hbefore, hafter⟩ :=
      exists_step_of_foldl (P := fun t : Table => t.lookup key = none) (answersNew_spec hfirst).2
        (answersNew_spec hlast).1
    exact ⟨before, call, after, rfl, releases_of_step hbefore hafter⟩
  · intro moment id text s' h
    obtain ⟨n, now, hid, hopen, hrows⟩ := finishTextIn_eq_ok h
    obtain ⟨row, hrow, rfl, hrowOpen, hmem⟩ := exists_settled hopen hrows
    exact ⟨row, hrow, hrowOpen, hid, now, fun later =>
      final_of_settled (Table.mem_run_of_settled hmem rfl later) rfl
        (Table.readable_run past row hrow)⟩
  · intro moment id basis s' h
    obtain ⟨n, now, hid, hopen, hrows⟩ := resolve_eq_ok h
    obtain ⟨row, hrow, rfl, hrowOpen, hmem⟩ := exists_settled hopen hrows
    have hsettled : (row.resolve now basis).isOpen = false := Bool.and_false _
    exact ⟨row, hrow, hrowOpen, hid, now, fun later =>
      final_of_settled (Table.mem_run_of_settled hmem hsettled later) hsettled
        fun stored hstored => ⟨basis, (Option.some.inj hstored).symm⟩⟩
  · intro row hrow hsettled later
    exact final_of_settled (Table.mem_run_of_settled hrow hsettled later) hsettled
      (Table.readable_run past row hrow)
  · intro row hrow moment intent hkey hhash
    refine begin_of_stored hrow hkey ?_
    simp [answerStored, hhash.symm, pure, Except.pure]
  · intro row hrow
    refine ⟨IntentRow.isOpen_iff (s.checked row hrow), ?_⟩
    by_cases hbasis : row.resolvedBasis = none
    · exact .inr hbasis
    · exact .inl (IntentRow.outcome_eq_none (s.checked row hrow) hbasis)

end Wamn.Intents
