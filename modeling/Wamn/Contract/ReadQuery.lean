import Wamn.Contract.CanonicalJson
import Wamn.Lib.Transaction

/-!
# Read queries

The query string of a read request element has one parameter per member, by name, with every byte
outside the unreserved set of RFC 3986 escaped. The decoder takes only what the encoder writes.
-/

namespace Wamn.Contract

open List Lib Lib.Json Lib.Text

inductive ReadQueryError where
  /-- A parameter has no `=`, or an escape is not `%` and two uppercase hex digits. -/
  | malformed
  /-- A name is not UTF-8 after unescaping. -/
  | notUtf8
  /-- A value is not JSON. -/
  | notJson
  /-- The encoder gives another string for what was decoded. -/
  | notCanonical
  deriving DecidableEq

def isUnreserved (byte : UInt8) : Bool :=
  '0'.toUInt8 ≤ byte && byte ≤ '9'.toUInt8 || 'A'.toUInt8 ≤ byte && byte ≤ 'Z'.toUInt8 ||
    'a'.toUInt8 ≤ byte && byte ≤ 'z'.toUInt8 || byte = '-'.toUInt8 || byte = '.'.toUInt8 ||
    byte = '_'.toUInt8 || byte = '~'.toUInt8

def upperHexDigit (n : ℕ) : Char := if n < 10 then Char.ofNat (48 + n) else Char.ofNat (55 + n)

def escapeByte (byte : UInt8) : List Char :=
  if isUnreserved byte then [Char.ofNat byte.toNat]
  else ['%', upperHexDigit (byte.toNat / 16), upperHexDigit (byte.toNat % 16)]

def escape (bytes : List UInt8) : List Char := bytes.flatMap escapeByte

def hex (digit : UInt8) : Except ReadQueryError UInt8 :=
  if '0'.toUInt8 ≤ digit ∧ digit ≤ '9'.toUInt8 then .ok (digit - '0'.toUInt8)
  else if 'A'.toUInt8 ≤ digit ∧ digit ≤ 'F'.toUInt8 then .ok (digit - 'A'.toUInt8 + 10)
  else .error .malformed

def unescape : List UInt8 → Except ReadQueryError (List UInt8)
  | [] => .ok []
  | byte :: rest =>
    if byte = '%'.toUInt8 then
      match rest with
      | high :: low :: tail => do
        let high ← hex high
        let low ← hex low
        let bytes ← unescape tail
        return (high <<< 4 ||| low) :: bytes
      | _ => .error .malformed
    else do
      let bytes ← unescape rest
      return byte :: bytes

variable (serde : SerdeJson)

def encodeParameter (m : String × Value) : List Char :=
  escape (utf8 m.1.toList) ++ '=' :: escape (canonicalJsonBytes serde m.2)

def pushParameter (query : List Char) (m : String × Value) : List Char :=
  (if query = [] then query else query ++ ['&']) ++ encodeParameter serde m

def encodeReadQuery (requestElement : Map serde.order) : String :=
  String.ofList ((sortByName requestElement.members).foldl (pushParameter serde) [])

def decodeParameter (requestElement : Map serde.order) (parameter : List Char) :
    Except ReadQueryError (Map serde.order) :=
  match splitOnce '=' parameter with
  | none => .error .malformed
  | some (name, value) => do
    let name ← unescape (utf8 name)
    let name ← (ofUtf8 name).elim (.error .notUtf8) .ok
    let value ← unescape (utf8 value)
    let value ← (serde.fromSlice value).elim (.error .notJson) .ok
    return requestElement.insert name value

def decodeParameters (query : String) : Except ReadQueryError (Map serde.order) :=
  if query = "" then .ok Map.empty
  else (query.toList.splitOn '&').foldlM (decodeParameter serde) Map.empty

def decodeReadQuery (query : String) : Except ReadQueryError (Map serde.order) := do
  let requestElement ← decodeParameters serde query
  if encodeReadQuery serde requestElement = query then .ok requestElement
  else .error .notCanonical

/-! ## Escaping -/

lemma utf8_of_isUnreserved : ∀ n < 256, isUnreserved (UInt8.ofNat n) = true →
    utf8 [Char.ofNat n] = [UInt8.ofNat n] ∧ UInt8.ofNat n ≠ '%'.toUInt8 := by
  decide +kernel

lemma hex_upperHexDigit : ∀ n < 16,
    utf8 [upperHexDigit n] = [(upperHexDigit n).toUInt8] ∧
      hex (upperHexDigit n).toUInt8 = .ok (UInt8.ofNat n) := by
  decide +kernel

lemma digits_eq : ∀ n < 256,
    UInt8.ofNat (n / 16) <<< 4 ||| UInt8.ofNat (n % 16) = UInt8.ofNat n := by
  decide +kernel

lemma notMem_escapeByte : ∀ n < 256,
    '&' ∉ escapeByte (UInt8.ofNat n) ∧ '=' ∉ escapeByte (UInt8.ofNat n) := by
  decide +kernel

lemma unescape_cons {byte : UInt8} (h : byte ≠ '%'.toUInt8) (rest : List UInt8) :
    unescape (byte :: rest) = (unescape rest).map (byte :: ·) := by
  have hrest : unescape (byte :: rest) = unescape rest >>= fun bytes => pure (byte :: bytes) := by
    conv_lhs => unfold unescape
    exact if_neg h
  rw [hrest]
  cases unescape rest <;> rfl

lemma unescape_percent {high low high' low' : UInt8} (hhigh : hex high = .ok high')
    (hlow : hex low = .ok low') (rest : List UInt8) :
    unescape ('%'.toUInt8 :: high :: low :: rest) =
      (unescape rest).map ((high' <<< 4 ||| low') :: ·) := by
  rw [unescape, if_pos rfl, hhigh, hlow]
  cases unescape rest <;> rfl

lemma unescape_escapeByte (byte : UInt8) (rest : List UInt8) :
    unescape (utf8 (escapeByte byte) ++ rest) = (unescape rest).map (byte :: ·) := by
  have hlt : byte.toNat < 256 := byte.toNat_lt
  have hbyte : UInt8.ofNat byte.toNat = byte := UInt8.ofNat_toNat
  unfold escapeByte
  split
  · rename_i hunreserved
    obtain ⟨hutf8, hne⟩ := utf8_of_isUnreserved byte.toNat hlt (hbyte.symm ▸ hunreserved)
    rw [hutf8, hbyte, singleton_append, unescape_cons (hbyte ▸ hne)]
  · obtain ⟨hhigh, hhex⟩ := hex_upperHexDigit (byte.toNat / 16) (by omega)
    obtain ⟨hlow, hhex'⟩ := hex_upperHexDigit (byte.toNat % 16) (by omega)
    have hutf8 : utf8 ['%', upperHexDigit (byte.toNat / 16), upperHexDigit (byte.toNat % 16)] =
        '%'.toUInt8 :: (upperHexDigit (byte.toNat / 16)).toUInt8 ::
          [(upperHexDigit (byte.toNat % 16)).toUInt8] := by
      rw [utf8, flatMap_singleton] at hhigh hlow
      rw [utf8, flatMap_cons, flatMap_cons, flatMap_singleton, hhigh, hlow]
      rfl
    rw [hutf8, cons_append, cons_append, singleton_append, unescape_percent hhex hhex',
      digits_eq _ hlt, hbyte]

lemma unescape_escape (bytes : List UInt8) : unescape (utf8 (escape bytes)) = .ok bytes := by
  induction bytes with
  | nil => rfl
  | cons byte bytes ih =>
    have happend : utf8 (escape (byte :: bytes)) =
        utf8 (escapeByte byte) ++ utf8 (escape bytes) := by
      rw [utf8, escape, flatMap_cons, flatMap_append]
      rfl
    rw [happend, unescape_escapeByte, ih]
    rfl

lemma notMem_escape (bytes : List UInt8) : '&' ∉ escape bytes ∧ '=' ∉ escape bytes := by
  have hbyte : ∀ byte : UInt8, '&' ∉ escapeByte byte ∧ '=' ∉ escapeByte byte := by
    intro byte
    have h := notMem_escapeByte byte.toNat byte.toNat_lt
    rwa [UInt8.ofNat_toNat] at h
  constructor
  all_goals
    intro hmem
    obtain ⟨byte, -, hmem⟩ := mem_flatMap.1 hmem
  · exact (hbyte byte).1 hmem
  · exact (hbyte byte).2 hmem

/-! ## Queries -/

section Query

variable {serde}

lemma notMem_encodeParameter (m : String × Value) : '&' ∉ encodeParameter serde m := by
  rw [encodeParameter, mem_append, mem_cons, not_or, not_or]
  exact ⟨(notMem_escape _).1, by decide, (notMem_escape _).1⟩

lemma foldl_pushParameter (members : Members) :
    members.foldl (pushParameter serde) [] =
      List.intercalate ['&'] (members.map (encodeParameter serde)) := by
  have hfold : ∀ (members : Members) query, query ≠ [] →
      members.foldl (pushParameter serde) query =
        query ++ members.flatMap fun m => ['&'] ++ encodeParameter serde m := by
    intro members
    induction members with
    | nil => simp
    | cons m members ih =>
      intro query hquery
      rw [foldl_cons, pushParameter, if_neg hquery, ih _ (by simp), flatMap_cons]
      simp
  cases members with
  | nil => rfl
  | cons m members =>
    have hne : encodeParameter serde m ≠ [] := by simp [encodeParameter]
    rw [foldl_cons, pushParameter, if_pos rfl, nil_append, hfold members _ hne,
      map_cons, intercalate_cons, flatMap_map]

/-- A parameter of an encoded query is read as its member, with the value that the JSON library
reads. -/
theorem decodeParameter_encodeParameter (requestElement : Map serde.order) (m : String × Value) :
    decodeParameter serde requestElement (encodeParameter serde m) =
      (serde.fromSlice (canonicalJsonBytes serde m.2)).elim (.error .notJson) fun value =>
        .ok (requestElement.insert m.1 value) := by
  have hsplit : splitOnce '=' (encodeParameter serde m) =
      some (escape (utf8 m.1.toList), escape (canonicalJsonBytes serde m.2)) :=
    splitOnce_eq_some.2 ⟨rfl, (notMem_escape _).2⟩
  have hname : ofUtf8 (utf8 m.1.toList) = some m.1 := ofUtf8_utf8 m.1
  rw [decodeParameter, hsplit]
  cases hvalue : serde.fromSlice (canonicalJsonBytes serde m.2) with
  | none => simp [unescape_escape, hname, hvalue, bind, Except.bind]
  | some value => simp [unescape_escape, hname, hvalue, bind, Except.bind, pure, Except.pure]

/-- The JSON library reads its canonical bytes of a value into an equal one. -/
def ReadsCanonical (serde : SerdeJson) (v : Value) : Prop :=
  ∃ read, serde.fromSlice (canonicalJsonBytes serde v) = some read ∧ read.value.Same v

section Fold

variable {members : Members} (requestElement : Map serde.order)
  (hsorted : ((requestElement.members ++ members).map Prod.fst).Pairwise (· < ·))

include hsorted

/-- A name that comes after every other is listed last. -/
theorem members_insert {m : String × Value} (hm : m ∈ members) (value : SerdeValue) :
    (requestElement.insert m.1 value).members = requestElement.members ++ [(m.1, value.value)] :=
  MapOrder.insert_of_last fun before hbefore =>
    (pairwise_append.1 (pairwise_map.1 hsorted)).2.2 before hbefore m hm

/-- The parameters of members that continue a request element in order are read one after
another. -/
theorem foldlM_decodeParameter (hreads : ∀ m ∈ members, ReadsCanonical serde m.2) :
    ∃ (read : Map serde.order) (added : Members),
      (members.map (encodeParameter serde)).foldlM (decodeParameter serde) requestElement =
        .ok read ∧
      read.members = requestElement.members ++ added ∧
      List.Forall₂ (fun m n => m.1 = n.1 ∧ m.2.Same n.2) added members := by
  induction members generalizing requestElement with
  | nil => exact ⟨requestElement, [], rfl, by simp, .nil⟩
  | cons m members ih =>
    obtain ⟨⟨value, hvalue, hsame⟩, hreads⟩ := forall_mem_cons.1 hreads
    have hinserted := members_insert requestElement hsorted mem_cons_self value
    obtain ⟨read, added, hread, hmembers, hadded⟩ :=
      ih (requestElement.insert m.1 value) (by simpa [hinserted] using hsorted) hreads
    refine ⟨read, (m.1, value.value) :: added, ?_, by simp [hmembers, hinserted],
      .cons ⟨rfl, hsame⟩ hadded⟩
    rw [map_cons, foldlM_cons, decodeParameter_encodeParameter, hvalue]
    exact hread

/-- What is read from the parameters of such members holds what the library read from each. -/
theorem mem_of_foldlM {read : Map serde.order}
    (h : (members.map (encodeParameter serde)).foldlM (decodeParameter serde) requestElement =
      .ok read) :
    requestElement.members ⊆ read.members ∧ ∀ m ∈ members, ∃ value,
      serde.fromSlice (canonicalJsonBytes serde m.2) = some value ∧
        (m.1, value.value) ∈ read.members := by
  induction members generalizing requestElement with
  | nil =>
    cases h
    exact ⟨fun _ h => h, nofun⟩
  | cons m members ih =>
    rw [map_cons, foldlM_cons, decodeParameter_encodeParameter] at h
    cases hvalue : serde.fromSlice (canonicalJsonBytes serde m.2) with
    | none =>
      rw [hvalue] at h
      cases h
    | some value =>
      rw [hvalue] at h
      have hinserted := members_insert requestElement hsorted mem_cons_self value
      obtain ⟨hkept, hmembers⟩ :=
        ih (requestElement.insert m.1 value) (by simpa [hinserted] using hsorted) h
      rw [hinserted, append_subset] at hkept
      exact ⟨hkept.1, forall_mem_cons.2 ⟨⟨value, hvalue, hkept.2 mem_cons_self⟩, hmembers⟩⟩

end Fold

/-- The JSON library reads every value of the map. -/
def Readable (m : Map serde.order) : Prop := ∀ member ∈ m.members, ReadsCanonical serde member.2

lemma distinct_object (m : Map serde.order) : (Value.object m.members).Distinct :=
  .object m.lists.nodup m.distinct

lemma encodeReadQuery_congr {m m' : Map serde.order} (h : m.Same m') :
    encodeReadQuery serde m = encodeReadQuery serde m' := by
  -- A parameter depends on the sorted value only, and sorting the members commutes with sorting the
  -- values, so the query is made from the sorted object.
  have hencode : ∀ m : Map serde.order, ∀ members,
      sortedKeys (.object m.members) = .object members →
      encodeReadQuery serde m = String.ofList (List.intercalate ['&'] (members.map fun m =>
        escape (utf8 m.1.toList) ++ '=' :: escape (serde.toVec m.2))) := by
    intro m members hmembers
    have hsorted : (sortByName m.members).map (fun m => (m.1, sortedKeys m.2)) = members := by
      rw [sortedKeys, Value.mapObjects, Value.mapMembers_eq] at hmembers
      rw [← Value.object.inj hmembers]
      exact map_insertionSort _ _ _ _ fun a _ b _ => Iff.rfl
    rw [encodeReadQuery, foldl_pushParameter, ← hsorted, map_map]
    rfl
  have hkeys : sortedKeys (.object m.members) = sortedKeys (.object m'.members) := by
    rw [sortedKeys_eq_collect (distinct_object m), sortedKeys_eq_collect (distinct_object m'), h]
  rw [hencode m _ rfl, hencode m' _ hkeys.symm]

lemma decodeParameters_encodeReadQuery (m : Map serde.order) :
    decodeParameters serde (encodeReadQuery serde m) =
      ((sortByName m.members).map (encodeParameter serde)).foldlM (decodeParameter serde)
        Map.empty := by
  rw [encodeReadQuery, foldl_pushParameter, decodeParameters]
  cases hmembers : sortByName m.members with
  | nil => rfl
  | cons first rest =>
    have hne : String.ofList (List.intercalate ['&']
        ((first :: rest).map (encodeParameter serde))) ≠
        "" := by
      rw [map_cons, intercalate_cons]
      intro hempty
      have hlist := congrArg String.toList hempty
      simp [encodeParameter] at hlist
    rw [if_neg hne, String.toList_ofList, splitOn_intercalate]
    · intro parameter hparameter
      obtain ⟨member, -, rfl⟩ := mem_map.1 hparameter
      exact notMem_encodeParameter member
    · simp

lemma decodeReadQuery_eq_ok {query : String} {m : Map serde.order} :
    decodeReadQuery serde query = .ok m ↔
      decodeParameters serde query = .ok m ∧ encodeReadQuery serde m = query := by
  rw [decodeReadQuery, bind_eq_ok]
  constructor
  · rintro ⟨read, hread, h⟩
    split at h
    · rename_i heq
      cases h
      exact ⟨hread, heq⟩
    · cases h
  · rintro ⟨hread, heq⟩
    exact ⟨m, hread, if_pos heq⟩

section Sorted

variable (m : Map serde.order)

lemma sorted_members :
    (((Map.empty : Map serde.order).members ++ sortByName m.members).map Prod.fst).Pairwise
      (· < ·) :=
  pairwise_map.2 (sortByName_sorted m.lists.nodup)

lemma decodeReadQuery_encodeReadQuery (hm : Readable m) :
    ∃ read, decodeReadQuery serde (encodeReadQuery serde m) = .ok read ∧ read.Same m := by
  have hperm := sortByName_perm m.members
  obtain ⟨read, added, hread, hmembers, hadded⟩ :=
    foldlM_decodeParameter Map.empty (sorted_members m)
    fun member hmember => hm member (hperm.mem_iff.1 hmember)
  have hsame : read.Same m := by
    rw [Map.Same, hmembers]
    exact Value.same_object m.lists.nodup hperm hadded
  rw [← decodeParameters_encodeReadQuery] at hread
  exact ⟨read, decodeReadQuery_eq_ok.2 ⟨hread, encodeReadQuery_congr hsame⟩, hsame⟩

/-- A decoded map holds what the library read from its own bytes. -/
theorem readable_of_decode {query : String} (h : decodeReadQuery serde query = .ok m) :
    Readable m := by
  obtain ⟨hread, rfl⟩ := decodeReadQuery_eq_ok.1 h
  rw [decodeParameters_encodeReadQuery] at hread
  intro member hmember
  obtain ⟨value, hvalue, hmem⟩ := (mem_of_foldlM Map.empty (sorted_members m) hread).2 member
    ((sortByName_perm m.members).mem_iff.2 hmember)
  -- Both are the member of one name.
  have hlookup := (Value.lookup_eq_some m.lists.nodup).2 hmem
  rw [(Value.lookup_eq_some m.lists.nodup).2 hmember, Option.some.injEq] at hlookup
  exact ⟨value, hvalue, congrArg _ hlookup.symm⟩

end Sorted

end Query

/-- Read queries are canonical. The decoder accepts exactly what the encoder writes for maps whose
values the JSON library reads from their canonical bytes, the encoder writes a decoded string again,
such a map is taken back, and equal query strings, or maps, come from equal maps, or query
strings. -/
theorem read_query_canonical (serde : SerdeJson) :
    (∀ query, (∃ m, decodeReadQuery serde query = .ok m) ↔
      ∃ m, Readable m ∧ encodeReadQuery serde m = query) ∧
    (∀ query m, decodeReadQuery serde query = .ok m → encodeReadQuery serde m = query) ∧
    (∀ m, Readable m →
      ∃ read, decodeReadQuery serde (encodeReadQuery serde m) = .ok read ∧ read.Same m) ∧
    (∀ m m', Readable m → Readable m' →
      (encodeReadQuery serde m = encodeReadQuery serde m' ↔ m.Same m')) ∧
    (∀ query query' m m', decodeReadQuery serde query = .ok m →
      decodeReadQuery serde query' = .ok m' → m.Same m' → query = query') := by
  have hback (m : Map serde.order) := decodeReadQuery_encodeReadQuery m
  have hagain (query : String) (m : Map serde.order) (h : decodeReadQuery serde query = .ok m) :
      encodeReadQuery serde m = query := (decodeReadQuery_eq_ok.1 h).2
  refine ⟨fun query => ⟨?_, ?_⟩, hagain, hback,
    fun m m' hm hm' => ⟨fun h => ?_, encodeReadQuery_congr⟩, fun query query' m m' h h' hsame => ?_⟩
  · rintro ⟨m, h⟩
    exact ⟨m, readable_of_decode m h, hagain query m h⟩
  · rintro ⟨m, hm, rfl⟩
    obtain ⟨read, hread, -⟩ := hback m hm
    exact ⟨read, hread⟩
  · -- Both maps are equal to the one that the common query is decoded into.
    obtain ⟨read, hread, hsame⟩ := hback m hm
    obtain ⟨read', hread', hsame'⟩ := hback m' hm'
    rw [h, hread'] at hread
    cases hread
    exact hsame.symm.trans hsame'
  · rw [← hagain query m h, ← hagain query' m' h', encodeReadQuery_congr hsame]

namespace Sample

/-- A request element whose map lists its members in the order in which they were put in. -/
def page : Map (JsonText.serde .byInsertion).order where
  members := [("limit", .number (.posInt 20)), ("after", .string "a&b")]
  lists := by
    show (["limit", "after"] : List String).Nodup
    decide
  distinct := by
    simp only [forall_mem_cons]
    exact ⟨.number _, .string _, fun _ h => nomatch h⟩

/-- The query of the page lists its parameters by name, and is decoded to an equal page. -/
theorem page_is_taken_back :
    encodeReadQuery (JsonText.serde .byInsertion) page = "after=%22a%26b%22&limit=20" ∧
      ∃ read, decodeReadQuery (JsonText.serde .byInsertion) "after=%22a%26b%22&limit=20" =
        .ok read ∧
        read.Same page := by
  have hquery : encodeReadQuery (JsonText.serde .byInsertion) page =
      "after=%22a%26b%22&limit=20" := by
    decide +kernel
  have hreadable : Readable page := fun member hmember => by
    refine fromSlice_canonicalJsonBytes (JsonText.readsOwn_serde _)
      (page.distinct member hmember) ?_ ?_
    all_goals
      obtain rfl | rfl := mem_pair.1 hmember
    · exact .number (show 20 < 2 ^ 64 by decide)
    · exact .string _
    · decide
    · decide
  have hpage := (read_query_canonical (JsonText.serde .byInsertion)).2.2.1 page hreadable
  exact ⟨hquery, hquery ▸ hpage⟩

end Sample

end Wamn.Contract
