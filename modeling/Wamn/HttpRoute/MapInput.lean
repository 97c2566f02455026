import Mathlib.Data.List.Infix
import Wamn.Lib.Json
import Wamn.Lib.TextForm
import Wamn.Lib.Transaction

/-!
# The input of a routed HTTP request

Each mapping of a route takes a value from the body, the path, the query or the headers, in this
order, and puts it at a JSON pointer of the input. No mapping may replace what another one put.
-/

namespace Wamn.HttpRoute

open List Lib Lib.Json

inductive MappingSource where
  | body
  | path
  | query
  | header
  deriving DecidableEq

inductive Cardinality where
  | one
  | many
  deriving DecidableEq

structure Mapping where
  source : MappingSource
  name : String
  target : String
  optional : Bool := false
  cardinality : Cardinality := .one
  deriving DecidableEq

/-- Why a mapping refuses the request, with status 400. -/
inductive MappingError where
  | sourceRequired
  | cardinality
  | collision
  | pointer
  deriving DecidableEq

/-- The body, and the named values of the path, the query and the headers. -/
structure Request where
  body : Value
  path : List (String × String)
  query : List (String × String)
  headers : List (String × String)
  deriving DecidableEq

/-! ## Values -/

def namedValues (values : List (String × String)) (name : String) : List String :=
  (values.filter fun value => value.1 = name).map Prod.snd

def eqIgnoreAsciiCase (a b : String) : Bool :=
  a.toList.map Char.toLower == b.toList.map Char.toLower

def headerValues (headers : List (String × String)) (name : String) : List String :=
  (headers.filter fun header => eqIgnoreAsciiCase header.1 name).map Prod.snd

def Mapping.named (mapping : Mapping) (request : Request) : List String :=
  match mapping.source with
  | .body => []
  | .path => namedValues request.path mapping.name
  | .query => namedValues request.query mapping.name
  | .header => headerValues request.headers mapping.name

def mappingValues (request : Request) (mapping : Mapping) : Except MappingError (Option Value) :=
  match mapping.source, mapping.named request, mapping.cardinality with
  | .body, _, _ =>
    .ok (if mapping.name = "" then some request.body else request.body.get mapping.name)
  | _, [], _ => .ok none
  | _, [value], .one => .ok (some (.string value))
  | _, _, .one => .error .cardinality
  | _, values, .many => .ok (some (.array (values.map .string)))

/-! ## Targets -/

/-- The names of a pointer, which is empty or begins with a slash. -/
def pointerTokens (pointer : String) : Option (List String) :=
  match pointer.toList with
  | [] => some []
  | '/' :: rest => some ((rest.splitOn '/').map fun raw =>
      String.ofList (TextForm.replacePair '~' '0' '~' (TextForm.replacePair '~' '1' '/' raw)))
  | _ => none

/-- The loop of `set_pointer`. Objects that are missing on the way are made. -/
def insertAt : List String → Value → Value → Except MappingError Value
  | [], _, _ => .error .pointer
  | [token], value, .object members =>
    if (members.lookup token).isSome then .error .collision
    else .ok (.object (Value.insertMember token value members))
  | token :: next :: rest, value, .object members => do
    let child ← insertAt (next :: rest) value ((members.lookup token).getD (.object []))
    .ok (.object (Value.insertMember token child members))
  | _, _, _ => .error .collision

/-- `set_pointer`, given the names of the pointer. The root is only set while it is empty. -/
def setAt (root : Value) (target : List String × Value) : Except MappingError Value :=
  if target.1 = [] then
    if root = .object [] then .ok target.2 else .error .collision
  else insertAt target.1 target.2 root

def setPointer (root : Value) (pointer : String) (value : Value) : Except MappingError Value :=
  match pointerTokens pointer with
  | some tokens => setAt root (tokens, value)
  | none => .error .pointer

/-! ## The input -/

def applyMapping (request : Request) (output : Value) (mapping : Mapping) :
    Except MappingError Value := do
  match ← mappingValues request mapping with
  | some value => setPointer output mapping.target value
  | none => if mapping.optional then .ok output else .error .sourceRequired

def inOrder (mappings : List Mapping) : List Mapping :=
  [.body, .path, .query, .header].flatMap fun source =>
    mappings.filter fun mapping => mapping.source = source

def mapInput (mappings : List Mapping) (request : Request) : Except MappingError Value :=
  if mappings = [] then .ok request.body
  else (inOrder mappings).foldlM (applyMapping request) (.object [])

/-- The targets and values of the mappings that supplied one, in order. -/
def supplied (mappings : List Mapping) (request : Request) : List (List String × Value) :=
  (inOrder mappings).filterMap fun mapping =>
    match mappingValues request mapping with
    | .ok (some value) => some ((pointerTokens mapping.target).getD [], value)
    | _ => none

def at? : List String → Value → Option Value
  | [], v => some v
  | name :: names, v => (v.get name).bind (at? names)

/-! ## One mapping -/

lemma lookup_cons_ite (key name : String) (value : Value) (rest : List (String × Value)) :
    ((name, value) :: rest).lookup key = if key = name then some value else rest.lookup key := by
  rw [lookup_cons]
  by_cases h : key = name <;> simp [h, beq_eq_false_iff_ne.2]

lemma lookup_insertMember (name key : String) (value : Value) (members : List (String × Value)) :
    (Value.insertMember name value members).lookup key =
      if key = name then some value else members.lookup key := by
  induction members with
  | nil => exact lookup_cons_ite ..
  | cons member rest ih =>
    obtain ⟨k, v⟩ := member
    rw [Value.insertMember]
    split
    · exact lookup_cons_ite ..
    · split
      · rename_i heq
        subst heq
        rw [lookup_cons_ite, lookup_cons_ite]
        split <;> rfl
      · rename_i hne
        rw [lookup_cons_ite, lookup_cons_ite, ih]
        split
        · rename_i hk
          rw [if_neg (hk ▸ Ne.symm hne)]
        · rfl

section Insert

variable {token : String} {names : List String} {value root out : Value}

lemma insertAt_cons (h : insertAt (token :: names) value root = .ok out) :
    ∃ child, (∀ name names', at? (name :: names') out =
        if name = token then at? names' child else at? (name :: names') root) ∧
      root.asObject.isSome ∧ out.asObject.isSome ∧
      (names = [] ∧ root.get token = none ∧ child = value ∨
        names ≠ [] ∧ insertAt names value ((root.get token).getD (.object [])) = .ok child) := by
  have hat : ∀ child members name names',
      at? (name :: names') (.object (Value.insertMember token child members)) =
        if name = token then at? names' child else at? (name :: names') (.object members) := by
    intro child members name names'
    rw [at?, Value.get, lookup_insertMember]
    split <;> rfl
  match names, root with
  | [], .object members =>
    rw [insertAt] at h
    split at h
    · cases h
    · rename_i hnone
      cases h
      exact ⟨value, hat value members, rfl, rfl,
        .inl ⟨rfl, Option.not_isSome_iff_eq_none.1 hnone, rfl⟩⟩
  | next :: rest, .object members =>
    obtain ⟨child, hchild, hout⟩ := bind_eq_ok.1 h
    cases hout
    exact ⟨child, hat child members, rfl, rfl, .inr ⟨cons_ne_nil _ _, hchild⟩⟩

lemma at?_cons_eq_some {x : Value} : at? (token :: names) root = some x ↔
    ∃ child, root.get token = some child ∧ at? names child = some x :=
  Option.bind_eq_some_iff

lemma grown_of_insertAt {names' : List String} {x : Value}
    (h : insertAt (names' ++ names) value root = .ok out) (hx : at? names' root = some x)
    (hne : names ≠ []) : ∃ x', insertAt names value x = .ok x' ∧ at? names' out = some x' := by
  induction names' generalizing root out with
  | nil =>
    cases hx
    exact ⟨out, h, rfl⟩
  | cons token names' ih =>
    obtain ⟨child, hat, -, -, hchild⟩ := insertAt_cons h
    obtain ⟨c, hc, hx⟩ := at?_cons_eq_some.1 hx
    rcases hchild with ⟨hnil, -⟩ | ⟨-, hchild⟩
    · exact absurd (append_eq_nil_iff.1 hnil).2 hne
    · rw [hc] at hchild
      rw [hat, if_pos rfl]
      exact ih hchild hx

variable (h : insertAt names value root = .ok out)

include h

lemma at?_insertAt (names' : List String) : at? (names ++ names') out = at? names' value := by
  induction names generalizing root out with
  | nil => cases h
  | cons token names ih =>
    obtain ⟨child, hat, -, -, ⟨rfl, -, rfl⟩ | ⟨-, hchild⟩⟩ := insertAt_cons h
    · rw [cons_append, hat, if_pos rfl, nil_append]
    · rw [cons_append, hat, if_pos rfl, ih hchild]

lemma free_of_insertAt :
    at? names root = none ∧ ∀ names', names' <+: names → names' ≠ names → ∀ x,
      at? names' root = some x → x.asObject.isSome := by
  induction names generalizing root out with
  | nil => cases h
  | cons token names ih =>
    obtain ⟨child, -, hroot, -, hchild⟩ := insertAt_cons h
    have hbelow : ∀ c, root.get token = some c → names ≠ [] ∧ at? names c = none ∧
        ∀ names', names' <+: names → names' ≠ names → ∀ x, at? names' c = some x →
          x.asObject.isSome := by
      intro c hc
      rcases hchild with ⟨-, hnone, -⟩ | ⟨hne, hchild⟩
      · rw [hc] at hnone
        cases hnone
      · rw [hc] at hchild
        exact ⟨hne, ih hchild⟩
    constructor
    · cases hc : root.get token with
      | none => rw [at?, hc, Option.bind_none]
      | some c => rw [at?, hc, Option.bind_some, (hbelow c hc).2.1]
    · intro names' hbegins hne x hx
      cases names' with
      | nil => exact Option.some.inj hx ▸ hroot
      | cons name names' =>
        obtain ⟨rfl, htail⟩ := cons_prefix_cons.1 hbegins
        obtain ⟨c, hc, hx⟩ := at?_cons_eq_some.1 hx
        exact (hbelow c hc).2.2 names' htail (fun heq => hne (heq ▸ rfl)) x hx

lemma kept_of_insertAt {names' : List String} {x : Value} (hx : at? names' root = some x)
    (hbegins : ¬ names' <+: names) : at? names' out = some x := by
  induction names generalizing root out names' with
  | nil => cases h
  | cons token names ih =>
    obtain ⟨child, hat, -, -, hchild⟩ := insertAt_cons h
    cases names' with
    | nil => exact absurd nil_prefix hbegins
    | cons name names' =>
      rw [hat]
      split
      · rename_i heq
        subst heq
        obtain ⟨c, hc, hx⟩ := at?_cons_eq_some.1 hx
        rcases hchild with ⟨-, hnone, -⟩ | ⟨-, hchild⟩
        · rw [hc] at hnone
          cases hnone
        · rw [hc] at hchild
          exact ih hchild hx fun hp => hbegins (cons_prefix_cons.2 ⟨rfl, hp⟩)
      · exact hx

/-- Every member is one on the way to the target, of the value, or one that was there. -/
theorem accounted_of_insertAt {names' : List String} {x : Value} (hx : at? names' out = some x) :
    names' <+: names ∨ (∃ rest, names' = names ++ rest ∧ at? rest value = some x) ∨
      at? names' root = some x := by
  induction names generalizing root out names' with
  | nil => cases h
  | cons token names ih =>
    obtain ⟨child, hat, -, -, hchild⟩ := insertAt_cons h
    cases names' with
    | nil => exact .inl nil_prefix
    | cons name names' =>
      rw [hat] at hx
      split at hx
      · rename_i heq
        subst heq
        rcases hchild with ⟨rfl, -, rfl⟩ | ⟨-, hchild⟩
        · exact .inr (.inl ⟨names', rfl, hx⟩)
        · rcases ih hchild hx with hbegins | ⟨rest, rfl, hrest⟩ | hold
          · exact .inl (cons_prefix_cons.2 ⟨rfl, hbegins⟩)
          · exact .inr (.inl ⟨rest, rfl, hrest⟩)
          · cases hc : root.get name with
            | some c =>
              rw [hc] at hold
              exact .inr (.inr (at?_cons_eq_some.2 ⟨c, hc, hold⟩))
            | none =>
              -- An object that was made holds no member yet.
              rw [hc] at hold
              cases names' with
              | nil => exact .inl (cons_prefix_cons.2 ⟨rfl, nil_prefix⟩)
              | cons _ _ => cases hold
      · exact .inr (.inr hx)

end Insert

/-! ## All mappings -/

/-- What a target lies at below the given names, unless it is not below them. -/
def below (names : List String) (target : List String × Value) : Option (List String × Value) :=
  if names <+: target.1 ∧ names ≠ target.1 then some (target.1.drop names.length, target.2)
  else none

section Run

variable {targets : List (List String × Value)} {root out : Value}

lemma setAt_eq_ok {target : List String × Value} (h : setAt root target = .ok out) :
    target.1 = [] ∧ root = .object [] ∧ out = target.2 ∨
      target.1 ≠ [] ∧ insertAt target.1 target.2 root = .ok out := by
  unfold setAt at h
  split at h
  · rename_i hnil
    split at h
    · rename_i hempty
      cases h
      exact .inl ⟨hnil, hempty, rfl⟩
    · cases h
  · rename_i hne
    exact .inr ⟨hne, h⟩

lemma at?_setAt {target : List String × Value} (h : setAt root target = .ok out) :
    at? target.1 out = some target.2 := by
  rcases setAt_eq_ok h with ⟨hnil, -, rfl⟩ | ⟨-, h⟩
  · rw [hnil]
    rfl
  · have hat := at?_insertAt h []
    rwa [append_nil] at hat

lemma eq_nil_of_at?_empty {names : List String} {x : Value}
    (h : at? names (.object []) = some x) : names = [] := by
  cases names with
  | nil => rfl
  | cons _ _ => cases h

/-- What is at some names is, after further mappings, what those below the names make of it. -/
theorem grown_of_run (h : targets.foldlM setAt root = .ok out) {names : List String} {x : Value}
    (hx : at? names root = some x) (hroot : names = [] → ∀ target ∈ targets, target.1 ≠ []) :
    ∃ x', (targets.filterMap (below names)).foldlM setAt x = .ok x' ∧ at? names out = some x' := by
  induction targets generalizing root x with
  | nil =>
    cases h
    exact ⟨x, rfl, hx⟩
  | cons target targets ih =>
    obtain ⟨next, hnext, hrest⟩ := bind_eq_ok.1 h
    have hroot' : names = [] → ∀ target ∈ targets, target.1 ≠ [] :=
      fun hnil target htarget => hroot hnil target (mem_cons_of_mem _ htarget)
    rcases setAt_eq_ok hnext with ⟨hnil, rfl, -⟩ | ⟨hne, hinsert⟩
    · -- Nothing but the root is in an empty object.
      exact absurd hnil (hroot (eq_nil_of_at?_empty hx) target mem_cons_self)
    by_cases hbegins : names <+: target.1
    · obtain ⟨rest, heq⟩ := hbegins
      have hne : rest ≠ [] := by
        rintro rfl
        rw [append_nil] at heq
        rw [heq, (free_of_insertAt hinsert).1] at hx
        cases hx
      obtain ⟨x', hx', hat⟩ := grown_of_insertAt (heq ▸ hinsert) hx hne
      obtain ⟨w, hw, hout⟩ := ih hrest hat hroot'
      have hbelow : below names target = some (rest, target.2) := by
        simp [below, ← heq, hne]
      have hset : setAt x (rest, target.2) = .ok x' := (if_neg hne).trans hx'
      refine ⟨w, ?_, hout⟩
      rw [filterMap_cons_some hbelow]
      exact bind_eq_ok.2 ⟨x', hset, hw⟩
    · have hbelow : below names target = none := by simp [below, hbegins]
      rw [filterMap_cons_none hbelow]
      exact ih hrest (kept_of_insertAt hinsert hx hbegins) hroot'

lemma accounted_of_run (h : targets.foldlM setAt root = .ok out) {names : List String}
    (hx : (at? names out).isSome) :
    (∃ target ∈ targets, names <+: target.1 ∨
        ∃ rest, names = target.1 ++ rest ∧ (at? rest target.2).isSome) ∨
      (at? names root).isSome := by
  induction targets generalizing root with
  | nil =>
    cases h
    exact .inr hx
  | cons target targets ih =>
    obtain ⟨next, hnext, hrest⟩ := bind_eq_ok.1 h
    rcases ih hrest with ⟨target', htarget', hby⟩ | hx
    · exact .inl ⟨target', mem_cons_of_mem _ htarget', hby⟩
    rcases setAt_eq_ok hnext with ⟨hnil, -, rfl⟩ | ⟨-, hinsert⟩
    · exact .inl ⟨target, mem_cons_self, .inr ⟨names, by simp [hnil], hx⟩⟩
    obtain ⟨x, hx⟩ := Option.isSome_iff_exists.1 hx
    rcases accounted_of_insertAt hinsert hx with hbegins | ⟨rest, heq, hrest⟩ | hold
    · exact .inl ⟨target, mem_cons_self, .inl hbegins⟩
    · exact .inl ⟨target, mem_cons_self, .inr ⟨rest, heq, by simp [hrest]⟩⟩
    · exact .inr (by simp [hold])

lemma run_of_foldlM {request : Request} {mappings : List Mapping}
    (h : mappings.foldlM (applyMapping request) root = .ok out) :
    (mappings.filterMap fun mapping =>
      match mappingValues request mapping with
      | .ok (some value) => some ((pointerTokens mapping.target).getD [], value)
      | _ => none).foldlM setAt root = .ok out := by
  induction mappings generalizing root with
  | nil => exact h
  | cons mapping mappings ih =>
    obtain ⟨next, hnext, hrest⟩ := bind_eq_ok.1 h
    obtain ⟨supplied, hvalues, hnext⟩ := bind_eq_ok.1 hnext
    cases supplied with
    | none =>
      rw [filterMap_cons_none (by simp [hvalues])]
      obtain rfl : root = next := by
        cases hoptional : mapping.optional <;> simp [hoptional] at hnext
        exact hnext
      exact ih hrest
    | some value =>
      simp only [setPointer] at hnext
      split at hnext
      · rename_i tokens htokens
        rw [filterMap_cons_some (by simp [hvalues, htokens]; rfl)]
        exact bind_eq_ok.2 ⟨next, hnext, ih hrest⟩
      · cases hnext

end Run

/-- What a run of mappings sets at the root it sets first, unless an empty object is at the root. -/
theorem first_of_root {before after : List (List String × Value)} {target : List String × Value}
    {out : Value} (h : (before ++ target :: after).foldlM setAt (.object []) = .ok out)
    (hnil : target.1 = [])
    (hempty : ∀ value rest, before ++ target :: after ≠ ([], .object []) :: ([], value) :: rest) :
    before = [] := by
  obtain ⟨root, hbefore, hrest⟩ := bind_eq_ok.1 (foldlM_append.symm.trans h)
  obtain ⟨_, hset, -⟩ := bind_eq_ok.1 hrest
  obtain rfl : root = .object [] := by
    rcases setAt_eq_ok hset with ⟨-, hroot, -⟩ | ⟨hne, -⟩
    · exact hroot
    · exact absurd hnil hne
  -- A value that was set below the root is still in it, so the root is not empty.
  have hkept : ∀ {others : List (List String × Value)} {other : List String × Value} {root : Value},
      (other :: others).foldlM setAt root = .ok (.object []) → other.1 = [] := by
    intro others other root hrun
    by_contra hother
    obtain ⟨first, hfirst, hrun⟩ := bind_eq_ok.1 hrun
    obtain ⟨x, -, hx⟩ := grown_of_run hrun (at?_setAt hfirst) fun h => absurd h hother
    exact hother (eq_nil_of_at?_empty hx)
  obtain ⟨names, value⟩ := target
  obtain rfl : names = [] := hnil
  match before, hbefore with
  | [], _ => rfl
  | (names, first) :: before, hbefore =>
    obtain rfl : names = [] := hkept hbefore
    -- The next one that sets the root finds the first value there.
    match before, hbefore with
    | [], hbefore =>
      cases hbefore
      exact absurd rfl (hempty value after)
    | (names, second) :: before, hbefore =>
      have hrun : ((names, second) :: before).foldlM setAt first = .ok (.object []) := hbefore
      obtain rfl : names = [] := hkept hrun
      obtain ⟨_, hsecond, -⟩ := bind_eq_ok.1 hrun
      rcases setAt_eq_ok hsecond with ⟨-, rfl, -⟩ | ⟨hne, -⟩
      · exact absurd rfl (hempty second (before ++ ([], value) :: after))
      · exact absurd rfl hne

/-- Every supplied value is at its target, with only the members that later ones set below it. Each
target was free, and below objects only. -/
def Separate (targets : List (List String × Value)) (out : Value) : Prop :=
  ∀ before target after, targets = before ++ target :: after →
    (∃ value, (after.filterMap (below target.1)).foldlM setAt target.2 = .ok value ∧
      at? target.1 out = some value) ∧
    ∃ root, before.foldlM setAt (.object []) = .ok root ∧ (target.1 = [] → before = []) ∧
      (target.1 ≠ [] → at? target.1 root = none ∧
        ∀ names, names <+: target.1 → names ≠ target.1 → ∀ x, at? names root = some x →
          x.asObject.isSome)

/-- The input mappings of an accepted request do not overwrite each other exactly if not the first
two that supply a value both supply the root, the first an empty object. Every member is on the way
to a target or of a supplied value. -/
theorem mapInput_separate (mappings : List Mapping) (request : Request) (out : Value)
    (hne : mappings ≠ []) (h : mapInput mappings request = .ok out) :
    (Separate (supplied mappings request) out ↔
      ∀ value rest, supplied mappings request ≠ ([], .object []) :: ([], value) :: rest) ∧
    ∀ names, names ≠ [] → (at? names out).isSome →
      ∃ target ∈ supplied mappings request, names <+: target.1 ∨
        ∃ rest, names = target.1 ++ rest ∧ (at? rest target.2).isSome := by
  rw [mapInput, if_neg hne] at h
  have hrun : (supplied mappings request).foldlM setAt (.object []) = .ok out := run_of_foldlM h
  generalize supplied mappings request = targets at *
  refine ⟨⟨fun hseparate value rest heq => ?_, fun hempty => ?_⟩, fun names hnames hx => ?_⟩
  · obtain ⟨-, -, -, hfirst, -⟩ := hseparate [([], .object [])] ([], value) rest heq
    exact absurd (hfirst rfl) (cons_ne_nil _ _)
  · rintro before target after rfl
    obtain ⟨root, hbeforeRun, hrest⟩ := bind_eq_ok.1 (foldlM_append.symm.trans hrun)
    obtain ⟨next, hset, hafterRun⟩ := bind_eq_ok.1 hrest
    refine ⟨grown_of_run hafterRun (at?_setAt hset) fun _ other hother hnil => ?_,
      root, hbeforeRun, fun hnil => first_of_root hrun hnil hempty, fun hne => ?_⟩
    · -- Another target at the root would be the first of the run.
      obtain ⟨between, later, rfl⟩ := append_of_mem hother
      rw [← cons_append, ← append_assoc] at hrun hempty
      exact absurd (first_of_root hrun hnil hempty) (by simp)
    · rcases setAt_eq_ok hset with ⟨hnil, -⟩ | ⟨-, hinsert⟩
      · exact absurd hnil hne
      · exact free_of_insertAt hinsert
  · refine (accounted_of_run hrun hx).resolve_right fun hempty => ?_
    obtain ⟨x, hx⟩ := Option.isSome_iff_exists.1 hempty
    exact hnames (eq_nil_of_at?_empty hx)

namespace Sample

def emptyBody : Request := ⟨.object [], [("id", "7")], [("unit", "kg")], []⟩

/-- A query value replaces the empty body that an earlier mapping put at the root. -/
theorem root_is_replaced :
    let mappings : List Mapping := [⟨.body, "", "", false, .one⟩, ⟨.query, "unit", "", false, .one⟩]
    supplied mappings emptyBody = [([], .object []), ([], .string "kg")] ∧
    mapInput mappings emptyBody = .ok (.string "kg") := by
  decide +kernel

theorem members_are_separate :
    let mappings : List Mapping :=
      [⟨.query, "unit", "/item/unit", false, .one⟩, ⟨.path, "id", "/item/id", false, .one⟩]
    ∃ out, mapInput mappings emptyBody = .ok out ∧
      ∃ value, at? ["item", "id"] out = some value := by
  intro mappings
  have hsupplied : supplied mappings emptyBody =
      [(["item", "id"], .string "7"), (["item", "unit"], .string "kg")] := by decide +kernel
  have h : mapInput mappings emptyBody = .ok (.object
      [("item", .object [("id", .string "7"), ("unit", .string "kg")])]) := by decide +kernel
  have hseparate := (mapInput_separate mappings emptyBody _ (cons_ne_nil _ _) h).1.2
    (by simp [hsupplied])
  obtain ⟨⟨value, -, hvalue⟩, -⟩ := hseparate [] _ _ hsupplied
  exact ⟨_, h, value, hvalue⟩

end Sample

end Wamn.HttpRoute
