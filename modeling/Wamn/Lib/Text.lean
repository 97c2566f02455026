import Mathlib.Data.List.Basic
import Mathlib.Data.Nat.Notation

/-!
# Texts that can be taken apart again

A text of several parts determines them only if separators can be told from parts. Two forms are
treated: parts joined by a separator that a part does not contain, or contains a known number of
times, and the JSON text of a list of strings.
-/

namespace Wamn.Lib.Text

open List

/-! ## Characters -/

-- What all characters of a text are is decided along the text, not along all characters there are.
instance (priority := high) decidableForallMem {l : List Char} {p : Char → Prop} [DecidablePred p] :
    Decidable (∀ c ∈ l, p c) :=
  List.decidableBAll p l

instance (priority := high) decidableForallMemOption {o : Option Char} {p : Char → Prop}
    [DecidablePred p] :
    Decidable (∀ c ∈ o, p c) :=
  Option.decidableForallMem o

/-- The characters with the Unicode property `White_Space`. -/
def isWhiteSpace (c : Char) : Bool :=
  let n := c.toNat
  (9 ≤ n && n ≤ 13) || n = 32 || n = 0x85 || n = 0xA0 || n = 0x1680 ||
    (0x2000 ≤ n && n ≤ 0x200A) || n = 0x2028 || n = 0x2029 || n = 0x202F || n = 0x205F ||
    n = 0x3000

/-- A text without whitespace around it. -/
def trim (s : String) : String :=
  String.ofList ((s.toList.dropWhile isWhiteSpace).reverse.dropWhile isWhiteSpace).reverse

/-- The control characters. -/
def isControl (c : Char) : Bool :=
  c.toNat < 32 || (127 ≤ c.toNat && c.toNat < 160)

/-- The lower-case hexadecimal digit of a number below 16. -/
def hexDigit (n : ℕ) : Char :=
  if n < 10 then Char.ofNat (48 + n) else Char.ofNat (87 + n)

/-! ## Bytes -/

/-- The bytes of a text. -/
def utf8 (text : List Char) : List UInt8 := text.flatMap String.utf8EncodeChar

/-- The text of bytes, if they are UTF-8. -/
def ofUtf8 (bytes : List UInt8) : Option String := String.fromUTF8? bytes.toByteArray

lemma ofUtf8_utf8 (s : String) : ofUtf8 (utf8 s.toList) = some s := by
  have hbytes : (utf8 s.toList).toByteArray = s.toByteArray := by
    rw [← String.ofList_toList (s := s), String.toByteArray_ofList, String.toList_ofList]
    rfl
  rw [ofUtf8, hbytes, String.fromUTF8?, dif_pos s.isValidUTF8]
  rfl

/-! ## Runs of characters -/

section Run

variable {α : Type} {p : α → Bool} {run rest : List α}

lemma takeWhile_run (hrun : ∀ c ∈ run, p c = true) (hrest : ∀ c ∈ rest.head?, p c = false) :
    (run ++ rest).takeWhile p = run := by
  rw [takeWhile_append_of_pos hrun]
  cases rest with
  | nil => simp
  | cons c rest => simp [hrest c rfl]

lemma dropWhile_run (hrun : ∀ c ∈ run, p c = true) (hrest : ∀ c ∈ rest.head?, p c = false) :
    (run ++ rest).dropWhile p = rest := by
  rw [dropWhile_append_of_pos hrun]
  cases rest with
  | nil => rfl
  | cons c rest => simp [hrest c rfl]

end Run

/-! ## Parts joined by a separator -/

lemma intercalate_cons {α : Type} (sep part : List α) (parts : List (List α)) :
    List.intercalate sep (part :: parts) = part ++ parts.flatMap fun next => sep ++ next := by
  induction parts generalizing part with
  | nil => simp [List.intercalate]
  | cons next parts ih =>
    have hnext := ih next
    simp only [List.intercalate, intersperse_cons_cons, flatten_cons] at hnext ⊢
    rw [hnext, flatMap_cons, append_assoc]

section Join

variable {α : Type} [DecidableEq α] {sep : α} {a a' b b' : List α}

/-- Two joins with equally many separators after the joint have the same parts. -/
theorem append_cons_inj_of_count (hcount : b.count sep = b'.count sep)
    (h : a ++ sep :: b = a' ++ sep :: b') : a = a' ∧ b = b' := by
  -- One of the left parts extends the other by a list `c`; if it is not empty, it starts with the
  -- other joint, and the part after it has a separator more.
  rcases append_eq_append_iff.1 h with ⟨c, ha, hb⟩ | ⟨c, ha, hb⟩
  · cases c with
    | nil => exact ⟨by simpa using ha.symm, by simpa using hb⟩
    | cons x c =>
      obtain ⟨rfl, hlonger⟩ := List.cons.inj hb
      have hmore : b.count sep = c.count sep + (b'.count sep + 1) := by
        rw [hlonger, append_eq, count_append, count_cons_self]
      omega
  · cases c with
    | nil => exact ⟨by simpa using ha, by simpa using hb.symm⟩
    | cons x c =>
      obtain ⟨rfl, hlonger⟩ := List.cons.inj hb
      have hmore : b'.count sep = c.count sep + (b.count sep + 1) := by
        rw [hlonger, append_eq, count_append, count_cons_self]
      omega

lemma append_cons_inj_of_notMem (ha : sep ∉ a) (ha' : sep ∉ a')
    (h : a ++ sep :: b = a' ++ sep :: b') : a = a' ∧ b = b' := by
  refine append_cons_inj_of_count ?_ h
  have hcount := congrArg (List.count sep) h
  simpa [count_append, count_eq_zero_of_not_mem ha,
    count_eq_zero_of_not_mem ha'] using hcount

omit [DecidableEq α] in
/-- Two joins at a separator agree when their parts do, or when one part goes beyond the place of
the other's separator. -/
theorem append_cons_inj_iff : a ++ sep :: b = a' ++ sep :: b' ↔ a = a' ∧ b = b' ∨
    (∃ x, a' = a ++ sep :: x ∧ b = x ++ sep :: b') ∨
      ∃ x, a = a' ++ sep :: x ∧ b' = x ++ sep :: b := by
  constructor
  · intro h
    rcases append_eq_append_iff.1 h with ⟨c, hleft, hright⟩ | ⟨c, hleft, hright⟩ <;>
      cases c with
      | nil => simp_all
      | cons x c =>
        simp only [cons_append, List.cons.injEq] at hright
        obtain ⟨rfl, hright⟩ := hright
        simp [hleft, hright]
  · rintro (⟨rfl, rfl⟩ | ⟨x, rfl, rfl⟩ | ⟨x, rfl, rfl⟩) <;> simp

omit [DecidableEq α] in
/-- A join at a doubled separator determines its parts, if the left one has and ends with none. -/
theorem append_double_inj (ha : ¬[sep, sep] <:+: a ++ [sep]) (ha' : ¬[sep, sep] <:+: a' ++ [sep])
    (h : a ++ sep :: sep :: b = a' ++ sep :: sep :: b') : a = a' ∧ b = b' := by
  have hlonger : ∀ {a a' b b' : List α}, ¬[sep, sep] <:+: a' ++ [sep] → ∀ x,
      ¬(a' = a ++ sep :: x ∧ sep :: b = x ++ sep :: sep :: b') := by
    rintro a a' b b' ha' x ⟨rfl, hx⟩
    cases x with
    | nil => exact ha' ⟨a, [], by simp⟩
    | cons y x =>
      obtain ⟨rfl, -⟩ := List.cons.inj hx
      exact ha' ⟨a, x ++ [sep], by simp⟩
  rcases append_cons_inj_iff.1 h with ⟨rfl, hb⟩ | ⟨x, hx⟩ | ⟨x, hx⟩
  · exact ⟨rfl, (List.cons.inj hb).2⟩
  · exact absurd hx (hlonger ha' x)
  · exact absurd hx (hlonger ha x)

/-- The parts before and after the first separator. -/
def splitOnce (sep : α) : List α → Option (List α × List α)
  | [] => none
  | x :: rest =>
    if x = sep then some ([], rest)
    else (splitOnce sep rest).map fun parts => (x :: parts.1, parts.2)

lemma splitOnce_eq_some {l : List α} :
    splitOnce sep l = some (a, b) ↔ l = a ++ sep :: b ∧ sep ∉ a := by
  induction l generalizing a with
  | nil => simp [splitOnce]
  | cons x l ih =>
    by_cases hx : x = sep
    · subst hx
      cases a with
      | nil => simp [splitOnce, eq_comm]
      | cons y a =>
        simp only [splitOnce, if_true, cons_append, List.cons.injEq, mem_cons, not_or]
        constructor
        · intro h
          simp at h
        · rintro ⟨⟨rfl, -⟩, hne, -⟩
          exact absurd rfl hne
    · cases a with
      | nil => simp [splitOnce, hx]
      | cons y a =>
        simp only [splitOnce, hx, if_false, Option.map_eq_some_iff, Prod.mk.injEq,
          List.cons.injEq, cons_append, mem_cons, not_or]
        constructor
        · rintro ⟨⟨a', b'⟩, hsplit, ⟨rfl, rfl⟩, rfl⟩
          obtain ⟨rfl, hmem⟩ := ih.1 hsplit
          exact ⟨⟨rfl, rfl⟩, Ne.symm hx, hmem⟩
        · rintro ⟨⟨rfl, rfl⟩, -, hmem⟩
          exact ⟨(a, b), ih.2 ⟨rfl, hmem⟩, ⟨rfl, rfl⟩, rfl⟩

lemma splitOnce_eq_none {l : List α} : splitOnce sep l = none ↔ sep ∉ l := by
  induction l with
  | nil => simp [splitOnce]
  | cons x l ih =>
    by_cases hx : x = sep
    · simp [splitOnce, hx]
    · simp [splitOnce, hx, ih, Ne.symm hx]

lemma notMem_of_mem_splitOn {l piece : List α} (h : piece ∈ l.splitOn sep) : sep ∉ piece := by
  induction l generalizing piece with
  | nil => simp_all
  | cons x l ih =>
    rw [splitOn_cons_eq_if_modifyHead] at h
    split at h
    · rcases mem_cons.1 h with rfl | h
      · exact not_mem_nil
      · exact ih h
    · rename_i hx
      obtain ⟨first, pieces, hpieces⟩ := exists_cons_of_ne_nil (splitOn_ne_nil sep l)
      rw [hpieces] at h ih
      rcases mem_cons.1 h with rfl | h
      · simp only [mem_cons, not_or]
        exact ⟨fun heq => hx (by simp [heq]), ih mem_cons_self⟩
      · exact ih (mem_cons_of_mem _ h)

end Join

lemma notMem_repr {c : Char} (hc : c.isDigit = false) (n : ℕ) : c ∉ n.repr.toList := by
  intro hmem
  rw [Nat.repr_eq_ofList_toDigits, String.toList_ofList] at hmem
  have hdigit := Nat.isDigit_of_mem_toDigits (by decide) (by decide) hmem
  simp [hc] at hdigit

/-! ## JSON strings -/

/-- The value of a lower-case hexadecimal digit. -/
def hexValue (c : Char) : ℕ :=
  if c.toNat < 58 then c.toNat - 48 else c.toNat - 87

/-- One character inside a JSON string. -/
def escapeChar (c : Char) : List Char :=
  if c = '"' then ['\\', '"']
  else if c = '\\' then ['\\', '\\']
  else if c = '\x08' then ['\\', 'b']
  else if c = '\t' then ['\\', 't']
  else if c = '\n' then ['\\', 'n']
  else if c = '\x0c' then ['\\', 'f']
  else if c = '\r' then ['\\', 'r']
  -- Every other control character by its number.
  else if c.toNat < 32 then
    ['\\', 'u', '0', '0', hexDigit (c.toNat / 16), hexDigit (c.toNat % 16)]
  else [c]

/-- Read back the first character of the inside of a JSON string. -/
def readChar : List Char → Option (Char × List Char)
  | '\\' :: 'u' :: '0' :: '0' :: high :: low :: rest =>
    some (Char.ofNat (16 * hexValue high + hexValue low), rest)
  | '\\' :: 'b' :: rest => some ('\x08', rest)
  | '\\' :: 't' :: rest => some ('\t', rest)
  | '\\' :: 'n' :: rest => some ('\n', rest)
  | '\\' :: 'f' :: rest => some ('\x0c', rest)
  | '\\' :: 'r' :: rest => some ('\r', rest)
  | '\\' :: c :: rest => some (c, rest)
  | c :: rest => some (c, rest)
  | [] => none

lemma hexValue_hexDigit : ∀ n < 32,
    16 * hexValue (hexDigit (n / 16)) + hexValue (hexDigit (n % 16)) = n := by
  decide

lemma readChar_escapeChar (c : Char) (rest : List Char) :
    readChar (escapeChar c ++ rest) = some (c, rest) := by
  unfold escapeChar
  split_ifs with hquote hbackslash hb ht hn hf hr hcontrol
  · subst hquote; rfl
  · subst hbackslash; rfl
  · subst hb; rfl
  · subst ht; rfl
  · subst hn; rfl
  · subst hf; rfl
  · subst hr; rfl
  · simp only [cons_append, nil_append, readChar]
    rw [hexValue_hexDigit c.toNat hcontrol, Char.ofNat_toNat]
  · -- A plain character is not a backslash, so none of the escapes applies.
    simp [readChar, hbackslash]

lemma escapeChar_ne_quote (c : Char) (rest rest' : List Char) :
    escapeChar c ++ rest ≠ '"' :: rest' := by
  unfold escapeChar
  split_ifs with hquote
  all_goals simp_all

/-- A JSON string. -/
def quote (text : List Char) : List Char :=
  '"' :: (text.flatMap escapeChar ++ ['"'])

/-- Read the inside of a string up to its closing quote. -/
def readString : ℕ → List Char → Option (List Char × List Char)
  | 0, _ => none
  | _ + 1, '"' :: rest => some ([], rest)
  | turns + 1, text =>
    match readChar text with
    | none => none
    | some (c, rest) => (readString turns rest).map fun found => (c :: found.1, found.2)

lemma readString_escapeChar (turns : ℕ) (c : Char) (rest : List Char) :
    readString (turns + 1) (escapeChar c ++ rest) =
      (readString turns rest).map fun found => (c :: found.1, found.2) := by
  rw [readString.eq_3 _ _ fun rest' h => escapeChar_ne_quote c rest rest' h, readChar_escapeChar]

lemma readString_quoted (text rest : List Char) {turns : ℕ} (hturns : text.length < turns) :
    readString turns (text.flatMap escapeChar ++ '"' :: rest) = some (text, rest) := by
  induction text generalizing turns with
  | nil =>
    obtain ⟨turns, rfl⟩ := Nat.exists_eq_add_one.mpr hturns
    rfl
  | cons c text ih =>
    obtain ⟨turns, rfl⟩ := Nat.exists_eq_add_one.mpr (Nat.zero_lt_of_lt hturns)
    rw [List.flatMap_cons, List.append_assoc, readString_escapeChar,
      ih (Nat.lt_of_succ_lt_succ hturns)]
    rfl

lemma quote_append_inj {text text' rest rest' : List Char}
    (h : quote text ++ rest = quote text' ++ rest') : text = text' ∧ rest = rest' := by
  have hread : ∀ s rest, s.length ≤ text.length + text'.length →
      readString (text.length + text'.length + 1) ((quote s ++ rest).drop 1) = some (s, rest) := by
    intro s rest hs
    rw [quote, List.cons_append, List.append_assoc, List.drop_one]
    exact readString_quoted s rest (Nat.lt_succ_of_le hs)
  have hfirst := hread text rest (Nat.le_add_right _ _)
  rw [h, hread text' rest' (Nat.le_add_left _ _), Option.some.injEq, Prod.mk.injEq] at hfirst
  exact ⟨hfirst.1.symm, hfirst.2.symm⟩

/-- The rest of a JSON array of strings after its first item. -/
def jsonStringsTail : List String → List Char
  | [] => [']']
  | s :: rest => ',' :: (quote s.toList ++ jsonStringsTail rest)

/-- The JSON text of a list of strings. -/
def jsonStrings : List String → String
  | [] => "[]"
  | s :: rest => String.ofList ('[' :: (quote s.toList ++ jsonStringsTail rest))

lemma jsonStringsTail_injective : Function.Injective jsonStringsTail := by
  intro xs
  induction xs with
  | nil =>
    intro ys h
    cases ys with
    | nil => rfl
    | cons y ys => simp [jsonStringsTail] at h
  | cons x xs ih =>
    intro ys h
    cases ys with
    | nil => simp [jsonStringsTail] at h
    | cons y ys =>
      -- The first literal ends where its quote says, so the rests agree as well.
      obtain ⟨hhead, htail⟩ := quote_append_inj (List.cons.inj h).2
      rw [String.toList_inj.1 hhead, ih htail]

/-- The JSON text of a list of strings determines the list. -/
theorem jsonStrings_injective : Function.Injective jsonStrings := by
  intro xs ys h
  cases xs with
  | nil =>
    cases ys with
    | nil => rfl
    | cons y ys =>
      have hlist := congrArg String.toList h
      simp [jsonStrings, quote] at hlist
  | cons x xs =>
    cases ys with
    | nil =>
      have hlist := congrArg String.toList h
      simp [jsonStrings, quote] at hlist
    | cons y ys =>
      have hlist : '[' :: (quote x.toList ++ jsonStringsTail xs) =
          '[' :: (quote y.toList ++ jsonStringsTail ys) := by
        simpa [jsonStrings] using congrArg String.toList h
      obtain ⟨hhead, htail⟩ := quote_append_inj (List.cons.inj hlist).2
      rw [String.toList_inj.1 hhead, jsonStringsTail_injective htail]

end Wamn.Lib.Text
