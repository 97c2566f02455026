import Wamn.Events.Wire
import Wamn.Lib.Decimal

/-!
# Names on the wire

The stream of an environment, its message ids, and the subject tokens and consumers of its entities.
A stream name and a derived id frame every part by its length. A subject token replaces what a
subject reserves and appends a hash; a name without such characters is its own token, and may spell
that of another name.
-/

namespace Wamn.Events

open List Lib Lib.Text

/-- `len`: the bytes of a string. -/
def byteLen (s : String) : ℕ := (utf8 s.toList).length

def streamName (org project env : String) : String :=
  "EVT_" ++ toString (byteLen org) ++ "_" ++ org ++ "_" ++ toString (byteLen project) ++ "_" ++
    project ++ "_" ++ toString (byteLen env) ++ "_" ++ env

/-- `event_stream_name` of the provisioner. -/
def eventStreamName (org project env : String) : String :=
  "EVT_" ++ toString (byteLen org) ++ "_" ++ org ++ "_" ++ toString (byteLen project) ++ "_" ++
    project ++ "_" ++ toString (byteLen env) ++ "_" ++ env

/-- `to_be_bytes`: the last bytes of a number, the greatest first. -/
def beBytes : ℕ → ℕ → List UInt8
  | 0, _ => []
  | width + 1, n => beBytes width (n / 256) ++ [UInt8.ofNat n]

def hashed (fields : List String) : List UInt8 :=
  utf8 "wamn.event.derived-msg-id.v0.1\x00".toList ++
    fields.flatMap fun field => beBytes 8 (min (byteLen field) (2 ^ 64 - 1)) ++ utf8 field.toList

def derivedMsgId (sha256 : List UInt8 → List UInt8)
    (envKey project env packageId entity : String) (op : Op) (dedupId : String) : String :=
  "derived:" ++ String.ofList
    ((sha256 (hashed [envKey, project, env, packageId, entity, op.asStr, dedupId])).flatMap
      fun byte =>
      [hexDigit (byte.toNat / 16), hexDigit (byte.toNat % 16)])

def DerivedEvent.hashedFields (e : DerivedEvent) : List String :=
  [e.envKey, e.project, e.environment, e.packageId, e.entity, e.op.asStr, e.dedupId]

def DerivedEvent.msgId (sha256 : List UInt8 → List UInt8) (e : DerivedEvent) : String :=
  derivedMsgId sha256 e.envKey e.project e.environment e.packageId e.entity e.op e.dedupId

def entityDurable (package entity : String) : String :=
  "entity_" ++ toString (byteLen package) ++ "_" ++ subjectToken package ++ "_" ++
    subjectToken entity

/-! ## Framed parts -/

section Frames

lemma utf8_ne_nil {text : List Char} (h : text ≠ []) : utf8 text ≠ [] := by
  obtain ⟨c, text, rfl⟩ := exists_cons_of_ne_nil h
  simp [utf8]

lemma utf8_append (text text' : List Char) : utf8 (text ++ text') = utf8 text ++ utf8 text' :=
  flatMap_append

lemma append_inj_of_byteLen {s s' : String} {rest rest' : List Char}
    (hlen : byteLen s = byteLen s')
    (h : s.toList ++ rest = s'.toList ++ rest') : s = s' ∧ rest = rest' := by
  -- The longer of the two would have more bytes.
  have hnil : ∀ {text text' c : List Char}, text' = text ++ c →
      (utf8 text).length = (utf8 text').length → c = [] := by
    rintro text text' c rfl hlen
    rw [utf8_append, length_append] at hlen
    by_contra hc
    exact utf8_ne_nil hc (length_eq_zero_iff.1 (by omega))
  rcases append_eq_append_iff.1 h with ⟨c, hs, hrest⟩ | ⟨c, hs, hrest⟩
  · cases hnil hs hlen
    exact ⟨String.toList_inj.1 (by simpa using hs.symm), by simpa using hrest⟩
  · cases hnil hs hlen.symm
    exact ⟨String.toList_inj.1 (by simpa using hs), by simpa using hrest.symm⟩

lemma frame_inj {s s' : String} {rest rest' : List Char}
    (h : (toString (byteLen s)).toList ++ '_' :: (s.toList ++ rest) =
      (toString (byteLen s')).toList ++ '_' :: (s'.toList ++ rest')) : s = s' ∧ rest = rest' := by
  obtain ⟨hlen, h⟩ := append_cons_inj_of_notMem (notMem_repr rfl _) (notMem_repr rfl _) h
  exact append_inj_of_byteLen (Decimal.repr_injective (String.toList_inj.1 hlen)) h

lemma streamName_injective {org project env org' project' env' : String}
    (h : streamName org project env = streamName org' project' env') :
    org = org' ∧ project = project' ∧ env = env' := by
  have hlist := congrArg String.toList h
  simp only [streamName, String.toList_append, append_assoc] at hlist
  obtain ⟨horg, hrest⟩ := frame_inj (append_cancel_left hlist)
  obtain ⟨hproject, hrest⟩ := frame_inj (List.cons.inj hrest).2
  refine ⟨horg, hproject, ?_⟩
  have henv := (List.cons.inj hrest).2
  rw [← append_nil env.toList, ← append_nil env'.toList] at henv
  exact (frame_inj henv).1

@[simp]
lemma length_beBytes (width n : ℕ) : (beBytes width n).length = width := by
  induction width generalizing n with
  | zero => rfl
  | succ width ih => rw [beBytes, length_append, ih, length_singleton]

lemma beBytes_injective {width n n' : ℕ} (hn : n < 256 ^ width) (hn' : n' < 256 ^ width)
    (h : beBytes width n = beBytes width n') : n = n' := by
  induction width generalizing n n' with
  | zero => omega
  | succ width ih =>
    rw [Nat.pow_succ] at hn hn'
    obtain ⟨hhigh, hlow⟩ := append_inj' h rfl
    have hlow := congrArg UInt8.toNat (List.cons.inj hlow).1
    have hhigh := ih (by omega) (by omega) hhigh
    simp only [UInt8.toNat_ofNat'] at hlow
    omega

lemma hashed_injective {fields fields' : List String} (hlen : fields.length = fields'.length)
    (hfits : ∀ field ∈ fields, byteLen field < 2 ^ 64)
    (hfits' : ∀ field ∈ fields', byteLen field < 2 ^ 64)
    (h : hashed fields = hashed fields') : fields = fields' := by
  have h := append_cancel_left h
  induction fields generalizing fields' with
  | nil => exact (length_eq_zero_iff.1 hlen.symm).symm
  | cons field fields ih =>
    obtain ⟨field', fields', rfl⟩ := exists_cons_of_length_eq_add_one hlen.symm
    obtain ⟨hfield, hfits⟩ := forall_mem_cons.1 hfits
    obtain ⟨hfield', hfits'⟩ := forall_mem_cons.1 hfits'
    simp only [flatMap_cons, append_assoc] at h
    obtain ⟨hframe, h⟩ := append_inj h (by simp)
    have hsize := beBytes_injective (by omega) (by omega) hframe
    obtain ⟨htext, hrest⟩ := append_inj h (by unfold byteLen at *; omega)
    have hsame : field = field' := by
      rw [← Option.some_inj, ← ofUtf8_utf8, htext, ofUtf8_utf8]
    rw [hsame, ih (by simpa using hlen) hfits hfits' ?_ hrest]
    rw [hashed, hashed, hrest]

lemma hexDigit_injective : ∀ n < 16, ∀ n' < 16, hexDigit n = hexDigit n' → n = n' := by
  decide

lemma hex_injective {bytes bytes' : List UInt8}
    (h : (bytes.flatMap fun byte => [hexDigit (byte.toNat / 16), hexDigit (byte.toNat % 16)]) =
      bytes'.flatMap fun byte => [hexDigit (byte.toNat / 16), hexDigit (byte.toNat % 16)]) :
    bytes = bytes' := by
  induction bytes generalizing bytes' with
  | nil =>
    cases bytes' with
    | nil => rfl
    | cons byte' bytes' => simp at h
  | cons byte bytes ih =>
    cases bytes' with
    | nil => simp at h
    | cons byte' bytes' =>
      simp only [flatMap_cons, cons_append, nil_append, List.cons.injEq] at h
      obtain ⟨hhigh, hlow, hrest⟩ := h
      have hlt := byte.toNat_lt
      have hlt' := byte'.toNat_lt
      have hhigh := hexDigit_injective _ (by omega) _ (by omega) hhigh
      have hlow := hexDigit_injective _ (by omega) _ (by omega) hlow
      rw [UInt8.toNat_inj.1 (by omega : byte.toNat = byte'.toNat), ih hrest]

lemma asStr_injective {op op' : Op} (h : op.asStr = op'.asStr) : op = op' := by
  cases op <;> cases op' <;> first | rfl | exact absurd h (by decide)

lemma hashedFields_injective {e e' : DerivedEvent} (h : e.hashedFields = e'.hashedFields) :
    e.envKey = e'.envKey ∧ e.project = e'.project ∧ e.environment = e'.environment ∧
      e.packageId = e'.packageId ∧ e.entity = e'.entity ∧ e.op = e'.op ∧
        e.dedupId = e'.dedupId := by
  simp only [DerivedEvent.hashedFields, List.cons.injEq, and_true] at h
  obtain ⟨henvKey, hproject, henv, hpackage, hentity, hop, hdedup⟩ := h
  exact ⟨henvKey, hproject, henv, hpackage, hentity, asStr_injective hop, hdedup⟩

/-- The id of a row event has an underscore, and that of a derived event has none. -/
theorem derivedMsgId_ne_msgId (sha256 : List UInt8 → List UInt8) (e : DerivedEvent)
    (project env : String) (lsn : ℕ) : e.msgId sha256 ≠ msgId project env lsn := by
  intro h
  have hmem : '_' ∈ (msgId project env lsn).toList := by simp [msgId, projectEnv]
  have hhex : ∀ n < 16, hexDigit n ≠ '_' := by decide
  rw [← h] at hmem
  simp only [DerivedEvent.msgId, derivedMsgId, String.toList_append, String.toList_ofList,
    mem_append, mem_flatMap] at hmem
  rcases hmem with hmem | ⟨byte, -, hmem⟩
  · exact absurd hmem (by decide)
  · have hlt := byte.toNat_lt
    rcases mem_pair.1 hmem with hmem | hmem
    · exact hhex _ (by omega) hmem.symm
    · exact hhex _ (by omega) hmem.symm

end Frames

/-- Streams and derived ids tell all their parts apart, if the hash does, and a derived id is never
that of a row event. A string of the host has a length of 64 bits. -/
theorem environments_separate (sha256 : List UInt8 → List UInt8)
    (hsha : Function.Injective sha256) :
    (∀ org project env org' project' env',
      streamName org project env = streamName org' project' env' →
        org = org' ∧ project = project' ∧ env = env') ∧
    (∀ org project env, streamName org project env = eventStreamName org project env) ∧
    (∀ e e' : DerivedEvent,
      (∀ field ∈ e.hashedFields ++ e'.hashedFields, byteLen field < 2 ^ 64) →
      e.msgId sha256 = e'.msgId sha256 →
      e.envKey = e'.envKey ∧ e.project = e'.project ∧ e.environment = e'.environment ∧
        e.packageId = e'.packageId ∧ e.entity = e'.entity ∧ e.op = e'.op ∧ e.dedupId = e'.dedupId) ∧
    ∀ (e : DerivedEvent) project env lsn, e.msgId sha256 ≠ msgId project env lsn := by
  refine ⟨fun _ _ _ _ _ _ => streamName_injective, fun _ _ _ => rfl, ?_,
    derivedMsgId_ne_msgId sha256⟩
  intro e e' hfits h
  have hlist := congrArg String.toList h
  simp only [DerivedEvent.msgId, derivedMsgId, String.toList_append, String.toList_ofList] at hlist
  obtain ⟨hfits, hfits'⟩ := forall_mem_append.1 hfits
  exact hashedFields_injective
    (hashed_injective rfl hfits hfits' (hsha (hex_injective (append_cancel_left hlist))))

namespace Sample

def paid : DerivedEvent where
  envKey := "acme_shop_live"
  project := "shop"
  environment := "live"
  packageId := "orders"
  entity := "order"
  op := .update
  payload := .null
  dedupId := "order-1"
  causation := ⟨"run-1", "run-1", 0⟩

/-- Two coordinates that a bare join would not tell apart, and two events that differ in one. -/
theorem streamName_ne : streamName "a_1_b" "c" "live" ≠ streamName "a" "b_1_c" "live" ∧
    paid.msgId id ≠ { paid with dedupId := "order-2" }.msgId id ∧
    paid.msgId id ≠ msgId "shop" "live" 7 := by
  obtain ⟨hstream, -, hderived, hrow⟩ := environments_separate id Function.injective_id
  refine ⟨fun h => ?_, fun h => ?_, hrow paid _ _ _⟩
  · exact absurd (hstream _ _ _ _ _ _ h).1 (by decide)
  · obtain ⟨-, -, -, -, -, -, hdedup⟩ := hderived _ _ (by decide) h
    exact absurd hdedup (by decide)

end Sample

/-! ## Tokens -/

/-- What a token of a subject and the name of a consumer may consist of. -/
def isReserved (c : Char) : Bool := c = '.' || c = '*' || c = '>' || isWhiteSpace c || isControl c

/-- The text is one token of a subject, which is also what the name of a consumer must be. -/
def IsToken (s : String) : Prop := s ≠ "" ∧ ∀ c ∈ s.toList, isReserved c = false

/-- The name with `_` for what a subject reserves. -/
def sanitized (raw : String) : String :=
  String.ofList (raw.toList.map fun c => if isReserved c then '_' else c)

section Tokens

variable {raw raw' : String}

lemma subjectToken_eq (raw : String) : subjectToken raw =
    if sanitized raw = raw then raw else sanitized raw ++ "_" ++ rawHash raw := by
  show (if sanitized raw = raw then sanitized raw else _) = _
  split
  · assumption
  · rfl

lemma not_reserved_sanitized (raw : String) :
    ∀ c ∈ (sanitized raw).toList, isReserved c = false := by
  intro c hc
  rw [sanitized, String.toList_ofList] at hc
  obtain ⟨d, -, rfl⟩ := mem_map.1 hc
  split
  · decide
  · rename_i hd
    exact Bool.eq_false_iff.2 hd

lemma sanitized_eq_self : sanitized raw = raw ↔ ∀ c ∈ raw.toList, isReserved c = false := by
  constructor
  · exact fun h => h ▸ not_reserved_sanitized raw
  · intro h
    have hmap : raw.toList.map (fun c => if isReserved c then '_' else c) = raw.toList.map id :=
      map_congr_left fun c hc => if_neg (by simp [h c hc])
    rw [sanitized, hmap, map_id, String.ofList_toList]

lemma rawHash_digits (raw : String) : (rawHash raw).toList.length = 8 ∧
    ∀ c ∈ (rawHash raw).toList, isReserved c = false ∧ c ≠ '_' := by
  have hhex : ∀ n < 16, isReserved (hexDigit n) = false ∧ hexDigit n ≠ '_' := by decide
  rw [rawHash, String.toList_ofList]
  refine ⟨by simp, fun c hc => ?_⟩
  obtain ⟨i, -, rfl⟩ := mem_map.1 hc
  exact hhex _ (Nat.mod_lt _ (by decide))

lemma not_reserved_subjectToken (raw : String) :
    ∀ c ∈ (subjectToken raw).toList, isReserved c = false := by
  rw [subjectToken_eq]
  split
  · rename_i hclean
    exact sanitized_eq_self.1 hclean
  · simp only [String.toList_append, forall_mem_append]
    exact ⟨⟨not_reserved_sanitized raw, by decide⟩, fun c hc => ((rawHash_digits raw).2 c hc).1⟩

lemma isToken_subjectToken (h : raw ≠ "") : IsToken (subjectToken raw) := by
  refine ⟨?_, not_reserved_subjectToken raw⟩
  rw [subjectToken_eq]
  split
  · exact h
  · intro hempty
    have hlength := congrArg (fun s => s.toList.length) hempty
    simp [(rawHash_digits raw).1] at hlength

lemma isToken_entityDurable (package entity : String) :
    IsToken (entityDurable package entity) := by
  have hdigit : ∀ d < 10, isReserved (Nat.digitChar d) = false := by decide
  have hnumber : ∀ n : ℕ, ∀ c ∈ (toString n).toList, isReserved c = false := by
    intro n c hc
    rw [Nat.toString_eq_repr, Nat.toList_repr] at hc
    obtain ⟨d, hd, rfl, -⟩ := Decimal.exists_digitChar (Decimal.isDigit_of_mem_toDigits hc)
    exact hdigit d hd
  constructor
  · intro hempty
    have hlength := congrArg (fun s => s.toList.length) hempty
    simp [entityDurable] at hlength
  · simp only [entityDurable, String.toList_append, forall_mem_append]
    exact ⟨⟨⟨⟨⟨by decide, hnumber _⟩, by decide⟩, not_reserved_subjectToken _⟩, by decide⟩,
      not_reserved_subjectToken _⟩

/-- The first name has a reserved character, and the second is it with `_` for each of them and its
hash behind. -/
def Spells (raw raw' : String) : Prop :=
  (∃ c ∈ raw.toList, isReserved c) ∧ raw' = sanitized raw ++ "_" ++ rawHash raw

/-- Two names are the same, or one is what is made of the other. -/
def Agree (raw raw' : String) : Prop := raw = raw' ∨ Spells raw raw' ∨ Spells raw' raw

/-- The hash of a name with a reserved character, behind its replaced text. -/
def hashSuffix (raw : String) : List Char :=
  if raw.toList.any isReserved then '_' :: (rawHash raw).toList else []

lemma sanitized_ne_self : sanitized raw ≠ raw ↔ ∃ c ∈ raw.toList, isReserved c := by
  rw [ne_eq, sanitized_eq_self]
  simp

lemma toList_subjectToken (raw : String) :
    (subjectToken raw).toList = (sanitized raw).toList ++ hashSuffix raw := by
  rw [subjectToken_eq, hashSuffix]
  by_cases hdirty : ∃ c ∈ raw.toList, isReserved c
  · rw [if_neg (sanitized_ne_self.2 hdirty), if_pos (any_eq_true.2 hdirty)]
    simp
  · have hclean : sanitized raw = raw := not_not.1 (mt sanitized_ne_self.1 hdirty)
    rw [if_pos hclean, if_neg (mt any_eq_true.1 hdirty), hclean, append_nil]

/-- Names of different hashes have one token exactly if one is made of the other. -/
theorem subjectToken_eq_iff (hhash : raw ≠ raw' → rawHash raw ≠ rawHash raw') :
    subjectToken raw = subjectToken raw' ↔ Agree raw raw' := by
  have hspells : ∀ {raw raw' : String}, Spells raw raw' → subjectToken raw' = subjectToken raw := by
    rintro raw raw' ⟨hdirty, rfl⟩
    have htoken : subjectToken raw = sanitized raw ++ "_" ++ rawHash raw := by
      rw [subjectToken_eq, if_neg (sanitized_ne_self.2 hdirty)]
    rw [← htoken, subjectToken_eq (subjectToken raw),
      if_pos (sanitized_eq_self.2 (not_reserved_subjectToken raw))]
  constructor
  · intro h
    rw [subjectToken_eq, subjectToken_eq] at h
    split at h <;> split at h
    · exact .inl h
    · exact .inr (.inr ⟨sanitized_ne_self.1 ‹_›, h⟩)
    · exact .inr (.inl ⟨sanitized_ne_self.1 ‹_›, h.symm⟩)
    · -- Both end in their hashes.
      have hlist := congrArg String.toList h
      simp only [String.toList_append] at hlist
      have hsame := String.toList_inj.1 (append_inj' hlist
        (by rw [(rawHash_digits raw).1, (rawHash_digits raw').1])).2
      exact .inl (not_not.1 (mt hhash (not_not.2 hsame)))
  · rintro (rfl | h | h)
    · rfl
    · exact (hspells h).symm
    · exact hspells h

/-- The second package with its hash goes on, after the first, into the first one's entity. -/
def Overlaps (package entity package' entity' : String) : Prop :=
  ∃ x, (sanitized package').toList ++ hashSuffix package' =
      (sanitized package).toList ++ hashSuffix package ++ '_' :: x ∧
    (sanitized entity).toList ++ hashSuffix entity =
      x ++ '_' :: ((sanitized entity').toList ++ hashSuffix entity')

lemma entityDurable_eq_iff {package entity package' entity' : String}
    (hpackage : package ≠ package' → rawHash package ≠ rawHash package')
    (hentity : entity ≠ entity' → rawHash entity ≠ rawHash entity') :
    entityDurable package entity = entityDurable package' entity' ↔
      byteLen package = byteLen package' ∧
        (Agree package package' ∧ Agree entity entity' ∨
          Overlaps package entity package' entity' ∨ Overlaps package' entity' package entity) := by
  have hshape : ∀ package entity, (entityDurable package entity).toList = "entity_".toList ++
      ((toString (byteLen package)).toList ++
        '_' :: ((subjectToken package).toList ++ '_' :: (subjectToken entity).toList)) := by
    intro package entity
    simp [entityDurable]
  have hparts : (subjectToken package).toList ++ '_' :: (subjectToken entity).toList =
        (subjectToken package').toList ++ '_' :: (subjectToken entity').toList ↔
      Agree package package' ∧ Agree entity entity' ∨
        Overlaps package entity package' entity' ∨ Overlaps package' entity' package entity := by
    rw [append_cons_inj_iff, String.toList_inj, String.toList_inj, subjectToken_eq_iff hpackage,
      subjectToken_eq_iff hentity]
    simp only [toList_subjectToken, Overlaps]
  rw [← String.toList_inj, hshape, hshape, append_cancel_left_eq]
  constructor
  · intro h
    obtain ⟨hlen, h⟩ := append_cons_inj_of_notMem (notMem_repr rfl _) (notMem_repr rfl _) h
    exact ⟨Decimal.repr_injective (String.toList_inj.1 hlen), hparts.1 h⟩
  · rintro ⟨hlen, h⟩
    rw [hlen, hparts.2 h]

/-- Every token and durable name is a legal NATS name. Different names with different hashes get
different tokens exactly when neither is the other with the reserved characters replaced and its
hash behind. Two durable names agree exactly when the packages have the same number of bytes and the
names agree so, or the text of one package runs into the other's entity. -/
theorem tokens_separate (raw raw' package entity package' entity' : String) :
    (raw ≠ "" → IsToken (subjectToken raw)) ∧
      IsToken (entityDurable package entity) ∧
      (raw ≠ raw' → rawHash raw ≠ rawHash raw' →
        (subjectToken raw ≠ subjectToken raw' ↔ ¬ Spells raw raw' ∧ ¬ Spells raw' raw)) ∧
      ((package ≠ package' → rawHash package ≠ rawHash package') →
        (entity ≠ entity' → rawHash entity ≠ rawHash entity') →
        (entityDurable package entity ≠ entityDurable package' entity' ↔
          ¬(byteLen package = byteLen package' ∧
            (Agree package package' ∧ Agree entity entity' ∨
              Overlaps package entity package' entity' ∨
              Overlaps package' entity' package entity)))) := by
  refine ⟨isToken_subjectToken, isToken_entityDurable package entity, fun hne hhash => ?_,
    fun hpackage hentity => not_congr (entityDurable_eq_iff hpackage hentity)⟩
  rw [ne_eq, subjectToken_eq_iff fun _ => hhash, Agree, or_iff_right hne, not_or]

/-- Two names that are one after the replacement have different tokens and consumers. -/
theorem Sample.subjectToken_ne : subjectToken "a.b" ≠ subjectToken "a_b" ∧
    entityDurable "a.b" "x" ≠ entityDurable "a_b" "x" := by
  obtain ⟨-, -, htoken, hdurable⟩ := tokens_separate "a.b" "a_b" "a.b" "x" "a_b" "x"
  have hhash : rawHash "a.b" ≠ rawHash "a_b" := by decide +kernel
  have hspells : ¬ Spells "a.b" "a_b" := fun h => absurd h.2 (by decide +kernel)
  have hspells' : ¬ Spells "a_b" "a.b" := fun h => absurd h.2 (by decide +kernel)
  refine ⟨(htoken (by decide) hhash).2 ⟨hspells, hspells'⟩,
    (hdurable (fun _ => hhash) (absurd rfl)).2 ?_⟩
  rintro ⟨-, ⟨h, -⟩ | ⟨x, -, h⟩ | ⟨x, -, h⟩⟩
  · rcases h with h | h | h
    · exact absurd h (by decide)
    · exact hspells h
    · exact hspells' h
  all_goals
    -- Both entities are the same, and one would have to be longer.
    have hlength := congrArg List.length h
    simp only [length_append, length_cons] at hlength
    omega

/-- A clean name can spell the token of a name that is not clean. -/
theorem Sample.tokens_collide :
    "a.b" ≠ "a_b_108bf50c" ∧ rawHash "a.b" ≠ rawHash "a_b_108bf50c" ∧
      subjectToken "a.b" = subjectToken "a_b_108bf50c" ∧
      entityDurable "a.b" "x" = entityDurable "a_b" "108bf50c_x" := by
  decide +kernel

end Tokens

end Wamn.Events
