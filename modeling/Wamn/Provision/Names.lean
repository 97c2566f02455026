import Mathlib.Data.String.Basic
import Wamn.Lib.Text
import Wamn.Lib.Transaction

/-!
# Names of the objects of an environment

The names of an environment's database, namespace and CDC objects join its organization, project,
environment and suffix by doubled hyphens, in CDC names underscores. The validators let no part
contain a doubled hyphen or begin or end with a hyphen.
-/

namespace Wamn.Provision

open List Lib Lib.Text Function

/-! ## Validation -/

inductive ProvisionError where
  | invalidProjectId (id reason : String)
  | reservedProjectId (id : String)
  | invalidComponent (component value reason : String)
  | nameTooLong (name : String) (max : ℕ)
  deriving DecidableEq

def isAlnum (c : Char) : Bool := c.isLower || c.isDigit

def containsDouble : List Char → Bool
  | '-' :: '-' :: _ => true
  | _ :: rest => containsDouble rest
  | [] => false

variable (id : String) (org project env suffix : String)

def slugReason : Option String :=
  if id = "" then some "empty"
  else if !id.toList.all (fun c => isAlnum c || c = '-') then
    some "only lowercase letters, digits, and hyphens are allowed"
  else if !(id.toList.head?.any isAlnum && id.toList.getLast?.any isAlnum) then
    some "must start and end with a lowercase letter or digit"
  else none

def componentSlugReason : Option String :=
  match slugReason id with
  | some reason => some reason
  | none => if containsDouble id.toList then some "must not contain consecutive hyphens" else none

def maxProjectIdLen : ℕ := 40

def projectIdReason : Option String :=
  if id = "" then some "empty"
  else if maxProjectIdLen < id.utf8ByteSize then some "too long (max 40 bytes)"
  else componentSlugReason id

def projectIdIsReserved : Bool := id = "wamn" || "wamn-".toList.isPrefixOf id.toList

def validateProjectId : Except ProvisionError Unit :=
  match projectIdReason id with
  | some reason => .error (.invalidProjectId id reason)
  | none => if projectIdIsReserved id then .error (.reservedProjectId id) else .ok ()

def validateComponent (component id : String) : Except ProvisionError Unit :=
  match projectIdReason id with
  | some reason => .error (.invalidComponent component id reason)
  | none => .ok ()

/-- `MAX_DB_NAME_LEN`, `INSTANCE_SUFFIX_LEN` and `MAX_NAMESPACE_STEM_LEN`. -/
def maxDbNameLen : ℕ := 63
def instanceSuffixLen : ℕ := 8
def maxNamespaceStemLen : ℕ := 63 - 2 - instanceSuffixLen

def databaseName : String :=
  "wamn-db-" ++ org ++ "--" ++ project ++ "--" ++ env ++ "--" ++ suffix

def namespaceStem (org project env : String) : String :=
  "wamn-" ++ org ++ "--" ++ project ++ "--" ++ env

def namespaceName : String :=
  namespaceStem org project env ++ "--" ++ suffix

def flatChar (c : Char) : Char := if c = '-' then '_' else c

def flat (s : String) : String := String.ofList (s.toList.map flatChar)

def cdcObjectName : String :=
  "wamn_cdc_" ++ flat org ++ "__" ++ flat project ++ "__" ++ flat env ++ "__" ++ suffix

def validateInstanceSuffix (suffix : String) : Except ProvisionError Unit :=
  if suffix.utf8ByteSize ≠ instanceSuffixLen then
    .error (.invalidComponent "instance" suffix "must be exactly 8 bytes")
  else if !suffix.toList.all isAlnum then
    .error (.invalidComponent "instance" suffix "only lowercase letters and digits are allowed")
  else .ok ()

def probe : String := "00000000"

def checkLength (name : String) (max : ℕ) : Except ProvisionError Unit :=
  if max < name.utf8ByteSize then .error (.nameTooLong name max) else .ok ()

def validateProjectEnv (org project env : String) : Except ProvisionError Unit := do
  validateComponent "org" org
  validateProjectId project
  validateComponent "env" env
  checkLength (databaseName org project env probe) maxDbNameLen
  checkLength (namespaceStem org project env) maxNamespaceStemLen

def validateProjectEnvCdc (org project env : String) : Except ProvisionError Unit := do
  validateProjectEnv org project env
  checkLength (cdcObjectName org project env probe) maxDbNameLen

/-- An environment that provisioning accepts, with its instance suffix. -/
@[ext]
structure Environment where
  org : String
  project : String
  env : String
  suffix : String
  valid : validateProjectEnvCdc org project env = .ok ()
  valid_suffix : validateInstanceSuffix suffix = .ok ()

namespace Environment

def database (e : Environment) : String := databaseName e.org e.project e.env e.suffix

def namespaceOf (e : Environment) : String := namespaceName e.org e.project e.env e.suffix

def cdcObject (e : Environment) : String := cdcObjectName e.org e.project e.env e.suffix

end Environment

/-! ## Parts -/

/-- A part of a name: hyphens stand alone and inside. -/
structure IsSlug (id : List Char) : Prop where
  ne_nil : id ≠ []
  chars : ∀ c ∈ id, isAlnum c = true ∨ c = '-'
  single : ¬['-', '-'] <:+: id ++ ['-']

lemma containsDouble_of_double {l : List Char} (h : ['-', '-'] <:+: l) :
    containsDouble l = true := by
  induction l with
  | nil => simp at h
  | cons c l ih =>
    rcases infix_cons_iff.1 h with ⟨rest, hfront⟩ | hinner
    · rw [← hfront]
      rfl
    · unfold containsDouble
      split
      · rfl
      · rename_i heq
        cases heq
        exact ih hinner
      · rename_i heq
        cases heq

lemma isSlug_of_reason {id : String} (h : projectIdReason id = none) : IsSlug id.toList := by
  unfold projectIdReason at h
  split_ifs at h with hempty hlong
  unfold componentSlugReason at h
  split at h
  · cases h
  · rename_i hslug
    unfold slugReason at hslug
    split_ifs at h hslug with hdouble hchars hends
    rw [Bool.not_eq_true, Bool.not_eq_false', all_eq_true] at hchars
    rw [Bool.not_eq_true, Bool.not_eq_false', Bool.and_eq_true] at hends
    refine ⟨by simpa using hempty, fun c hc => by simpa using hchars c hc, fun hpair => ?_⟩
    rcases infix_concat_iff.1 hpair with hsuffix | hinner
    · -- The last character would be a hyphen.
      rcases suffix_concat_iff.1 hsuffix with hnil | ⟨front, hfront, front', hlast⟩
      · cases hnil
      · obtain rfl : front = ['-'] := (append_left_inj _).1 hfront.symm
        rw [← hlast, getLast?_concat] at hends
        exact absurd hends.2 (by decide)
    · exact hdouble (containsDouble_of_double hinner)

section Join

variable {org project env suffix org' project' env' suffix' : List Char}

/-- The parts of a name with doubled hyphens between them. -/
def joined (org project env suffix : List Char) : List Char :=
  org ++ '-' :: '-' :: (project ++ '-' :: '-' :: (env ++ '-' :: '-' :: suffix))

lemma joined_inj (horg : IsSlug org) (hproject : IsSlug project) (henv : IsSlug env)
    (horg' : IsSlug org') (hproject' : IsSlug project') (henv' : IsSlug env')
    (h : joined org project env suffix = joined org' project' env' suffix') :
    org = org' ∧ project = project' ∧ env = env' ∧ suffix = suffix' := by
  obtain ⟨rfl, hrest⟩ := append_double_inj horg.single horg'.single h
  obtain ⟨rfl, hlast⟩ := append_double_inj hproject.single hproject'.single hrest
  obtain ⟨rfl, rfl⟩ := append_double_inj henv.single henv'.single hlast
  exact ⟨rfl, rfl, rfl, rfl⟩

end Join

lemma flat_inj {l l' : List Char} (hl : '_' ∉ l) (hl' : '_' ∉ l')
    (h : l.map flatChar = l'.map flatChar) : l = l' := by
  have hback : ∀ {l : List Char}, '_' ∉ l →
      (l.map flatChar).map (fun c => if c = '_' then '-' else c) = l := by
    intro l hl
    rw [map_map]
    refine (map_congr_left fun c hc => ?_).trans (map_id l)
    have hne : c ≠ '_' := fun heq => hl (heq ▸ hc)
    by_cases hhyphen : c = '-'
    · simp [flatChar, hhyphen]
    · simp [flatChar, hhyphen, hne]
  rw [← hback hl, h, hback hl']

/-! ## Environments -/

/-- A DNS label, which quoted is a PostgreSQL identifier too. -/
structure DnsLabel (name : String) : Prop where
  length : name.utf8ByteSize ≤ 63
  chars : ∀ c ∈ name.toList, isAlnum c = true ∨ c = '-'
  first : name.toList.head?.any isAlnum = true
  last : name.toList.getLast?.any isAlnum = true

/-- The name of a replication slot, which is a PostgreSQL identifier too. -/
structure SlotName (name : String) : Prop where
  length : name.utf8ByteSize ≤ 63
  ne_empty : name ≠ ""
  chars : ∀ c ∈ name.toList, isAlnum c = true ∨ c = '_'

lemma checkLength_eq_ok {name : String} {max : ℕ} {u : Unit} :
    checkLength name max = .ok u ↔ name.utf8ByteSize ≤ max := by
  unfold checkLength
  split_ifs with h <;> simp <;> omega

lemma isSlug_of_validateComponent {component id : String}
    (h : validateComponent component id = .ok ()) : IsSlug id.toList := by
  unfold validateComponent at h
  split at h
  · cases h
  · rename_i hreason
    exact isSlug_of_reason hreason

lemma isSlug_of_validateProjectId {id : String} (h : validateProjectId id = .ok ()) :
    IsSlug id.toList := by
  unfold validateProjectId at h
  split at h
  · cases h
  · rename_i hreason
    exact isSlug_of_reason hreason

namespace Environment

variable (e : Environment)

lemma checks : IsSlug e.org.toList ∧ IsSlug e.project.toList ∧ IsSlug e.env.toList ∧
    (databaseName e.org e.project e.env probe).utf8ByteSize ≤ 63 ∧
    (namespaceStem e.org e.project e.env).utf8ByteSize ≤ 53 ∧
    (cdcObjectName e.org e.project e.env probe).utf8ByteSize ≤ 63 := by
  have hvalid := e.valid
  simp only [validateProjectEnvCdc, validateProjectEnv, bind_eq_ok, checkLength_eq_ok] at hvalid
  obtain ⟨_, ⟨_, horg, _, hproject, _, henv, _, hdatabase, hnamespace⟩, hcdc⟩ := hvalid
  exact ⟨isSlug_of_validateComponent horg, isSlug_of_validateProjectId hproject,
    isSlug_of_validateComponent henv, hdatabase, hnamespace, hcdc⟩

lemma suffix_checks : e.suffix.utf8ByteSize = 8 ∧ ∀ c ∈ e.suffix.toList, isAlnum c = true := by
  have hvalid := e.valid_suffix
  unfold validateInstanceSuffix at hvalid
  split_ifs at hvalid with hlength hchars
  exact ⟨not_not.1 hlength, by simpa using hchars⟩

def parts : List Char := joined e.org.toList e.project.toList e.env.toList e.suffix.toList

lemma mem_parts {c : Char} (h : c ∈ e.parts) : isAlnum c = true ∨ c = '-' := by
  obtain ⟨horg, hproject, henv, -⟩ := e.checks
  simp only [parts, joined, mem_append, mem_cons] at h
  rcases h with h | rfl | rfl | h | rfl | rfl | h | rfl | rfl | h
  · exact horg.chars c h
  · exact .inr rfl
  · exact .inr rfl
  · exact hproject.chars c h
  · exact .inr rfl
  · exact .inr rfl
  · exact henv.chars c h
  · exact .inr rfl
  · exact .inr rfl
  · exact .inl (e.suffix_checks.2 c h)

lemma toList_database : e.database.toList = "wamn-db-".toList ++ e.parts := by
  simp [database, databaseName, parts, joined]

lemma toList_namespaceOf : e.namespaceOf.toList = "wamn-".toList ++ e.parts := by
  simp [namespaceOf, namespaceName, namespaceStem, parts, joined]

lemma toList_cdcObject : e.cdcObject.toList = "wamn_cdc_".toList ++ e.parts.map flatChar := by
  have hsuffix : e.suffix.toList.map flatChar = e.suffix.toList := by
    refine (map_congr_left fun c hc => if_neg ?_).trans (map_id _)
    rintro rfl
    exact absurd (e.suffix_checks.2 _ hc) (by decide)
  simp [cdcObject, cdcObjectName, parts, joined, flat, hsuffix, flatChar]

lemma underscore_notMem_parts : '_' ∉ e.parts := by
  intro h
  rcases e.mem_parts h with h | h
  · exact absurd h (by decide)
  · cases h

lemma getLast_parts : ∃ c, e.parts.getLast? = some c ∧ isAlnum c = true := by
  cases hlast : e.suffix.toList.getLast? with
  | none =>
    have hsize := e.suffix_checks.1
    rw [getLast?_eq_none_iff, String.toList_eq_nil_iff] at hlast
    rw [hlast] at hsize
    cases hsize
  | some c =>
    refine ⟨c, ?_, e.suffix_checks.2 c (mem_of_getLast? hlast)⟩
    simp [parts, joined, getLast?_append, getLast?_cons, hlast]

variable {e}

lemma eq_of_parts {e' : Environment} (h : e.parts = e'.parts) : e = e' := by
  obtain ⟨horg, hproject, henv, -⟩ := e.checks
  obtain ⟨horg', hproject', henv', -⟩ := e'.checks
  obtain ⟨hsame, hsame', henvs, hsuffixes⟩ := joined_inj horg hproject henv horg' hproject' henv' h
  exact Environment.ext (String.toList_inj.1 hsame) (String.toList_inj.1 hsame')
    (String.toList_inj.1 henvs) (String.toList_inj.1 hsuffixes)

lemma dnsLabel_of_parts {name : String} {front : List Char} (h : name.toList = front ++ e.parts)
    (hlength : name.utf8ByteSize ≤ 63) (hfront : ∀ c ∈ front, isAlnum c = true ∨ c = '-')
    (hfirst : front.head?.any isAlnum = true) : DnsLabel name := by
  refine ⟨hlength, ?_, ?_, ?_⟩
  · rw [h]
    exact forall_mem_append.2 ⟨hfront, fun c hc => e.mem_parts hc⟩
  · rw [h]
    cases front with
    | nil => cases hfirst
    | cons c front => exact hfirst
  · obtain ⟨c, hlast, hc⟩ := e.getLast_parts
    rw [h, getLast?_append, hlast]
    exact hc

end Environment

/-- The names of an accepted environment are well formed for their systems, and no two environments
share one. -/
theorem names_separate :
    (∀ e : Environment, DnsLabel e.database ∧ DnsLabel e.namespaceOf ∧ SlotName e.cdcObject) ∧
      Injective Environment.database ∧ Injective Environment.namespaceOf ∧
      Injective Environment.cdcObject := by
  refine ⟨fun e => ?_, fun e e' h => ?_, fun e e' h => ?_, fun e e' h => ?_⟩
  · obtain ⟨-, -, -, hdatabase, hnamespace, hcdc⟩ := e.checks
    have hsuffix := e.suffix_checks.1
    have hprobe : probe.utf8ByteSize = 8 := rfl
    simp only [databaseName, cdcObjectName, String.utf8ByteSize_append, hprobe] at hdatabase hcdc
    refine ⟨Environment.dnsLabel_of_parts e.toList_database ?_ (by decide) (by decide),
      Environment.dnsLabel_of_parts e.toList_namespaceOf ?_ (by decide) (by decide), ?_⟩
    · rw [Environment.database, databaseName, String.utf8ByteSize_append, hsuffix]
      simpa only [String.utf8ByteSize_append] using hdatabase
    · rw [Environment.namespaceOf, namespaceName, String.utf8ByteSize_append,
        String.utf8ByteSize_append, hsuffix]
      have hseparator : "--".utf8ByteSize = 2 := rfl
      omega
    · refine ⟨?_, ?_, ?_⟩
      · rw [Environment.cdcObject, cdcObjectName, String.utf8ByteSize_append, hsuffix]
        simpa only [String.utf8ByteSize_append] using hcdc
      · intro hempty
        have hlist := e.toList_cdcObject
        rw [hempty] at hlist
        simp at hlist
      · rw [e.toList_cdcObject]
        refine forall_mem_append.2 ⟨by decide, ?_⟩
        rw [forall_mem_map]
        intro c hc
        rcases e.mem_parts hc with halnum | rfl
        · have hne : c ≠ '-' := by
            rintro rfl
            exact absurd halnum (by decide)
          rw [flatChar, if_neg hne]
          exact .inl halnum
        · exact .inr rfl
  · have hlist := congrArg String.toList h
    rw [e.toList_database, e'.toList_database, append_cancel_left_eq] at hlist
    exact Environment.eq_of_parts hlist
  · have hlist := congrArg String.toList h
    rw [e.toList_namespaceOf, e'.toList_namespaceOf, append_cancel_left_eq] at hlist
    exact Environment.eq_of_parts hlist
  · have hlist := congrArg String.toList h
    rw [e.toList_cdcObject, e'.toList_cdcObject, append_cancel_left_eq] at hlist
    exact Environment.eq_of_parts
      (flat_inj e.underscore_notMem_parts e'.underscore_notMem_parts hlist)

example : ∃ e : Environment, e.database = "wamn-db-acme--web-shop--staging--a1b2c3d4" :=
  ⟨⟨"acme", "web-shop", "staging", "a1b2c3d4", by decide +kernel, by decide +kernel⟩, by decide⟩

end Wamn.Provision
