import Mathlib.Data.List.Basic
import Mathlib.Data.String.Basic
import Wamn.Lib.OrdMap
import Wamn.Lib.Text

/-!
# Row images

An image is the text of a JSONB object that holds one row. The history fold scans it for the end of
each value and keeps the raw text; all that the scanner looks for is ASCII, so characters stand for
bytes. `ValueText` and `render` say what PostgreSQL prints.
-/

namespace Wamn.History

open List Lib Lib.Text

/-! ## The scanner -/

def isSpace (c : Char) : Bool := c = ' ' || c = '\t' || c = '\n' || c = '\r'

def space (text : List Char) : List Char := text.dropWhile isSpace

def hexDigitValue (c : Char) : Option ℕ :=
  if '0' ≤ c ∧ c ≤ '9' then some (c.toNat - 48)
  else if 'a' ≤ c ∧ c ≤ 'f' then some (c.toNat - 87)
  else if 'A' ≤ c ∧ c ≤ 'F' then some (c.toNat - 55)
  else none

/-- The UTF-16 code unit of four hexadecimal digits. -/
def hexUnit (a b c d : Char) : Option ℕ :=
  match hexDigitValue a, hexDigitValue b, hexDigitValue c, hexDigitValue d with
  | some a, some b, some c, some d => some (((a * 16 + b) * 16 + c) * 16 + d)
  | _, _, _, _ => none

def escaped (c : Char) : Option Char :=
  if c = '"' ∨ c = '\\' ∨ c = '/' then some c
  else if c = 'b' then some '\x08'
  else if c = 'f' then some '\x0c'
  else if c = 'n' then some '\n'
  else if c = 'r' then some '\r'
  else if c = 't' then some '\t'
  else none

/-- The decoded inside of a JSON string, and what follows it. Surrogates come in pairs. -/
def stringBody : List Char → Option (List Char × List Char)
  | [] => none
  | '"' :: rest => some ([], rest)
  | '\\' :: 'u' :: a :: b :: c :: d :: rest =>
    match hexUnit a b c d with
    | none => none
    | some unit =>
      if 0xD800 ≤ unit ∧ unit < 0xDC00 then
        match rest with
        | '\\' :: 'u' :: a :: b :: c :: d :: rest =>
          match hexUnit a b c d with
          | none => none
          | some low =>
            if 0xDC00 ≤ low ∧ low < 0xE000 then
              (stringBody rest).map fun (text, rest) =>
                (Char.ofNat (0x10000 + (unit - 0xD800) * 0x400 + (low - 0xDC00)) :: text, rest)
            else none
        | _ => none
      else if 0xDC00 ≤ unit ∧ unit < 0xE000 then none
      else (stringBody rest).map fun (text, rest) => (Char.ofNat unit :: text, rest)
  | '\\' :: c :: rest =>
    match escaped c with
    | none => none
    | some c => (stringBody rest).map fun (text, rest) => (c :: text, rest)
  | c :: rest => (stringBody rest).map fun (text, rest) => (c :: text, rest)

/-- The decoded JSON string at the start of the text, and what follows it. -/
def string : List Char → Option (List Char × List Char)
  | '"' :: rest => stringBody rest
  | _ => none

inductive Mode where
  | plain
  | text
  /-- After a backslash in a string. -/
  | escape
  deriving DecidableEq

/-- `value_end`: the raw text of a value, and what follows it. `taken` is what was read, in
reverse. -/
def valueEnd (depth : ℕ) (mode : Mode) (taken : List Char) :
    List Char → Option (List Char × List Char)
  | [] => if depth = 0 ∧ mode = .plain ∧ taken ≠ [] then some (taken.reverse, []) else none
  | c :: rest =>
    match mode with
    | .escape => valueEnd depth .text (c :: taken) rest
    | .text =>
      if c = '\\' then valueEnd depth .escape (c :: taken) rest
      else if c = '"' then
        if depth = 0 then some ((c :: taken).reverse, rest)
        else valueEnd depth .plain (c :: taken) rest
      else valueEnd depth .text (c :: taken) rest
    | .plain =>
      if c = '"' then valueEnd depth .text (c :: taken) rest
      else if c = '{' ∨ c = '[' then valueEnd (depth + 1) .plain (c :: taken) rest
      else if (c = '}' ∨ c = ']') ∧ 0 < depth then
        if depth = 1 then some ((c :: taken).reverse, rest)
        else valueEnd (depth - 1) .plain (c :: taken) rest
      else if (c = ',' ∨ c = '}' ∨ c = ']' ∨ isSpace c = true) ∧ depth = 0 then
        if taken = [] then none else some (taken.reverse, c :: rest)
      else valueEnd depth .plain (c :: taken) rest

/-- A top-level member: its decoded name, its raw text and the raw text of its value. -/
structure Member where
  name : List Char
  member : List Char
  value : List Char

/-- The members of an object from a name on. Every turn reads a name. -/
def membersFrom : ℕ → List Char → Option (List Member)
  | 0, _ => none
  | turns + 1, text =>
    match string text with
    | none => none
    | some (name, rest) =>
      match space rest with
      | ':' :: rest =>
        match valueEnd 0 .plain [] (space rest) with
        | none => none
        | some (value, rest) =>
          let member : Member := ⟨name, text.take (text.length - rest.length), value⟩
          match space rest with
          | ',' :: rest => (membersFrom turns (space rest)).map (member :: ·)
          | '}' :: rest => if space rest = [] then some [member] else none
          | _ => none
      | _ => none

/-- The top-level members of the text of one JSON object. -/
def members (text : List Char) : Option (List Member) :=
  match space text with
  | '{' :: rest =>
    match space rest with
    | '}' :: rest => if space rest = [] then some [] else none
    | rest => membersFrom rest.length rest
  | _ => none

/-- Each column with its raw JSON value text. -/
abbrev RowImage := OrdMap String String

def image (text : List Char) : Option RowImage :=
  (members text).map fun found =>
    OrdMap.ofList (found.map fun m => (String.ofList m.name, String.ofList m.value))

/-! ## What PostgreSQL prints -/

def isPlain (c : Char) : Bool :=
  !(c = '"' || c = '{' || c = '}' || c = '[' || c = ']' || c = ',' || isSpace c)

/-- The parts with a comma and a space between them. -/
def joined (parts : List (List Char)) : List Char := List.intercalate [',', ' '] parts

def memberText (m : List Char × List Char) : List Char := quote m.1 ++ ([':', ' '] ++ m.2)

/-- The texts that a JSONB value has: a scalar, a string, an array or an object. -/
inductive ValueText : List Char → Prop where
  | scalar {text : List Char} (hne : text ≠ []) (hplain : ∀ c ∈ text, isPlain c = true) :
      ValueText text
  | string (text : List Char) : ValueText (quote text)
  | array (items : List (List Char)) (hitems : ∀ item ∈ items, ValueText item) :
      ValueText ('[' :: (joined items ++ [']']))
  | object (members : List (List Char × List Char)) (hmembers : ∀ m ∈ members, ValueText m.2) :
      ValueText ('{' :: (joined (members.map memberText) ++ ['}']))

@[ext]
structure Jsonb where
  text : List Char
  valid : ValueText text

def render (row : List (String × Jsonb)) : List Char :=
  '{' :: (joined (row.map fun m => memberText (m.1.toList, m.2.text)) ++ ['}'])

def texts (row : List (String × Jsonb)) : RowImage :=
  OrdMap.ofList (row.map fun m => (m.1, String.ofList m.2.text))

/-! ## Scanning what is printed -/

/-- At this depth, the scan of a value reads the text and is where it was. -/
def Passes (depth : ℕ) (text : List Char) : Prop :=
  ∀ taken rest, valueEnd depth .plain taken (text ++ rest) =
    valueEnd depth .plain (text.reverse ++ taken) rest

section Scan

variable {depth : ℕ} {text text' : List Char}

lemma passes_nil : Passes depth [] := fun _ _ => rfl

lemma Passes.append (h : Passes depth text) (h' : Passes depth text') :
    Passes depth (text ++ text') := by
  intro taken rest
  rw [append_assoc, h, h', reverse_append, append_assoc]

lemma joined_cons (part : List Char) (parts : List (List Char)) :
    joined (part :: parts) = part ++ parts.flatMap fun next => [',', ' '] ++ next :=
  intercalate_cons _ part parts

lemma passes_joined {parts : List (List Char)} (hsep : Passes depth [',', ' '])
    (h : ∀ part ∈ parts, Passes depth part) : Passes depth (joined parts) := by
  have htail : ∀ parts : List (List Char), (∀ part ∈ parts, Passes depth part) →
      Passes depth (parts.flatMap fun next => [',', ' '] ++ next) := by
    intro parts h
    induction parts with
    | nil => exact passes_nil
    | cons part parts ih =>
      rw [flatMap_cons]
      exact (hsep.append (h part mem_cons_self)).append
        (ih fun part hmem => h part (mem_cons_of_mem _ hmem))
  cases parts with
  | nil => exact passes_nil
  | cons part parts =>
    rw [joined_cons]
    exact (h part mem_cons_self).append
      (htail parts fun part hmem => h part (mem_cons_of_mem _ hmem))

lemma passes_plain (h : ∀ c ∈ text, isPlain c = true) : Passes depth text := by
  induction text with
  | nil => exact passes_nil
  | cons c text ih =>
    intro taken rest
    have hc := h c mem_cons_self
    simp only [isPlain, Bool.not_eq_true', Bool.or_eq_false_iff, decide_eq_false_iff_not] at hc
    obtain ⟨⟨⟨⟨⟨⟨hquote, hopen⟩, hclose⟩, hopen'⟩, hclose'⟩, hcomma⟩, hspace⟩ := hc
    rw [cons_append, valueEnd]
    simp only [hquote, hopen, hclose, hopen', hclose', hcomma, hspace, or_self, false_and, if_false,
      Bool.false_eq_true]
    rw [ih fun c hmem => h c (mem_cons_of_mem _ hmem)]
    simp

lemma hexDigit_ne : ∀ n < 16, hexDigit n ≠ '\\' ∧ hexDigit n ≠ '"' := by
  decide

lemma valueEnd_escapeChar (c : Char) (taken rest : List Char) :
    valueEnd depth .text taken (escapeChar c ++ rest) =
      valueEnd depth .text ((escapeChar c).reverse ++ taken) rest := by
  unfold escapeChar
  split_ifs with hquote hbackslash hb ht hn hf hr hcontrol
  · rfl
  · rfl
  · rfl
  · rfl
  · rfl
  · rfl
  · rfl
  · obtain ⟨hhigh, hhigh'⟩ := hexDigit_ne (c.toNat / 16) (by omega)
    obtain ⟨hlow, hlow'⟩ := hexDigit_ne (c.toNat % 16) (by omega)
    simp [valueEnd, hhigh, hhigh', hlow, hlow']
  · simp [valueEnd, hquote, hbackslash]

lemma valueEnd_flatMap (text taken rest : List Char) :
    valueEnd depth .text taken (text.flatMap escapeChar ++ rest) =
      valueEnd depth .text ((text.flatMap escapeChar).reverse ++ taken) rest := by
  induction text generalizing taken with
  | nil => rfl
  | cons c text ih =>
    rw [List.flatMap_cons, List.append_assoc, valueEnd_escapeChar, ih, List.reverse_append,
      List.append_assoc]

lemma valueEnd_quote (text taken rest : List Char) :
    valueEnd depth .plain taken (quote text ++ rest) =
      valueEnd depth .text ((text.flatMap escapeChar).reverse ++ '"' :: taken) ('"' :: rest) := by
  have henter : valueEnd depth .plain taken (quote text ++ rest) =
      valueEnd depth .text ('"' :: taken) (text.flatMap escapeChar ++ '"' :: rest) := by
    rw [quote, List.cons_append, List.append_assoc]
    rfl
  rw [henter, valueEnd_flatMap]

lemma passes_quote (hdepth : 0 < depth) (text : List Char) : Passes depth (quote text) := by
  intro taken rest
  have hne : depth ≠ 0 := by omega
  rw [valueEnd_quote, valueEnd, if_neg (by decide), if_pos rfl, if_neg hne]
  simp [quote]

lemma passes_separator (hdepth : 0 < depth) {c : Char} (hc : c = ',' ∨ c = ':') :
    Passes depth [c, ' '] := by
  intro taken rest
  have hne : depth ≠ 0 := by omega
  rcases hc with rfl | rfl
  all_goals simp [valueEnd, hne, isSpace]

lemma passes_nested {opening closing : Char} (hopening : opening = '{' ∨ opening = '[')
    (hclosing : closing = '}' ∨ closing = ']') (hdepth : 0 < depth)
    (h : Passes (depth + 1) text) : Passes depth (opening :: (text ++ [closing])) := by
  intro taken rest
  have hne : depth ≠ 0 := by omega
  have henter : valueEnd depth .plain taken (opening :: (text ++ [closing]) ++ rest) =
      valueEnd (depth + 1) .plain (opening :: taken) (text ++ closing :: rest) := by
    rcases hopening with rfl | rfl
    all_goals simp [valueEnd]
  have hleave : valueEnd (depth + 1) .plain (text.reverse ++ opening :: taken) (closing :: rest) =
      valueEnd depth .plain (closing :: (text.reverse ++ opening :: taken)) rest := by
    rcases hclosing with rfl | rfl
    all_goals simp [valueEnd, hne]
  rw [henter, h, hleave]
  simp

lemma passes_valueText (h : ValueText text) : ∀ depth, 0 < depth → Passes depth text := by
  induction h with
  | scalar hne hplain => exact fun depth _ => passes_plain hplain
  | string text => exact fun depth hdepth => passes_quote hdepth text
  | array items hitems ih =>
    intro depth hdepth
    refine passes_nested (.inr rfl) (.inr rfl) hdepth (passes_joined ?_ ?_)
    · exact passes_separator (by omega) (.inl rfl)
    · exact fun item hitem => ih item hitem (depth + 1) (by omega)
  | object members hmembers ih =>
    intro depth hdepth
    refine passes_nested (.inl rfl) (.inl rfl) hdepth (passes_joined ?_ fun part hpart => ?_)
    · exact passes_separator (by omega) (.inl rfl)
    · obtain ⟨m, hm, rfl⟩ := List.mem_map.mp hpart
      exact (passes_quote (by omega) m.1).append
        ((passes_separator (by omega) (.inr rfl)).append (ih m hm (depth + 1) (by omega)))

/-- The scan of an array or object ends at its closing bracket. -/
theorem valueEnd_nested {opening closing : Char} (hopening : opening = '{' ∨ opening = '[')
    (hclosing : closing = '}' ∨ closing = ']') (h : Passes 1 text) (rest : List Char) :
    valueEnd 0 .plain [] (opening :: (text ++ [closing]) ++ rest) =
      some (opening :: (text ++ [closing]), rest) := by
  have henter : valueEnd 0 .plain [] (opening :: (text ++ [closing]) ++ rest) =
      valueEnd 1 .plain [opening] (text ++ closing :: rest) := by
    rcases hopening with rfl | rfl
    all_goals simp [valueEnd]
  have hleave : valueEnd 1 .plain (text.reverse ++ [opening]) (closing :: rest) =
      some ((closing :: (text.reverse ++ [opening])).reverse, rest) := by
    rcases hclosing with rfl | rfl
    all_goals simp [valueEnd]
  rw [henter, h, hleave]
  simp

lemma valueEnd_valueText (h : ValueText text) {c : Char} (hc : c = ',' ∨ c = '}')
    (rest : List Char) : valueEnd 0 .plain [] (text ++ c :: rest) = some (text, c :: rest) := by
  cases h with
  | scalar hne hplain =>
    rw [passes_plain hplain]
    have hne' : text.reverse ++ [] ≠ [] := by simpa using hne
    rcases hc with rfl | rfl
    all_goals simp [valueEnd, hne]
  | string text =>
    rw [valueEnd_quote, valueEnd, if_neg (by decide), if_pos rfl, if_pos rfl]
    simp [quote]
  | array items hitems =>
    refine valueEnd_nested (.inr rfl) (.inr rfl) (passes_joined ?_ ?_) (c :: rest)
    · exact passes_separator (by omega) (.inl rfl)
    · exact fun item hitem => passes_valueText (hitems item hitem) 1 (by omega)
  | object members hmembers =>
    refine valueEnd_nested (.inl rfl) (.inl rfl) (passes_joined ?_ fun part hpart => ?_) (c :: rest)
    · exact passes_separator (by omega) (.inl rfl)
    · obtain ⟨m, hm, rfl⟩ := List.mem_map.mp hpart
      exact (passes_quote (by omega) m.1).append ((passes_separator (by omega) (.inr rfl)).append
        (passes_valueText (hmembers m hm) 1 (by omega)))

end Scan

/-! ## Members -/

lemma space_cons {c : Char} (hc : isSpace c = false) (rest : List Char) :
    space (c :: rest) = c :: rest := by
  simp [space, hc]

lemma space_blank {c : Char} (hc : isSpace c = false) (rest : List Char) :
    space (' ' :: c :: rest) = c :: rest := by
  show space (c :: rest) = c :: rest
  exact space_cons hc rest

lemma hexUnit_hexDigit : ∀ n < 32,
    hexUnit '0' '0' (hexDigit (n / 16)) (hexDigit (n % 16)) = some n := by
  decide

lemma stringBody_escapeChar (c : Char) (rest : List Char) :
    stringBody (escapeChar c ++ rest) = (stringBody rest).map fun (text, rest) =>
      (c :: text, rest) := by
  unfold escapeChar
  split_ifs with hquote hbackslash hb ht hn hf hr hcontrol
  · subst hquote; rfl
  · subst hbackslash; rfl
  · subst hb; rfl
  · subst ht; rfl
  · subst hn; rfl
  · subst hf; rfl
  · subst hr; rfl
  · have hunit := hexUnit_hexDigit c.toNat hcontrol
    have hhigh : ¬ (0xD800 ≤ c.toNat ∧ c.toNat < 0xDC00) := by omega
    have hlow : ¬ (0xDC00 ≤ c.toNat ∧ c.toNat < 0xE000) := by omega
    rw [List.cons_append, List.cons_append, List.cons_append, List.cons_append, List.cons_append,
      List.cons_append, List.nil_append, stringBody]
    simp only [hunit, hhigh, hlow, if_false, Char.ofNat_toNat]
  · -- A plain character is neither a quote nor a backslash.
    rw [List.cons_append, List.nil_append, stringBody.eq_def]
    split <;> simp_all

lemma string_quote (text rest : List Char) : string (quote text ++ rest) = some (text, rest) := by
  have hbody : stringBody (text.flatMap escapeChar ++ '"' :: rest) = some (text, rest) := by
    induction text with
    | nil => rfl
    | cons c text ih =>
      rw [flatMap_cons, append_assoc, stringBody_escapeChar, ih]
      rfl
  rw [quote, cons_append, append_assoc]
  exact hbody

lemma ValueText.exists_head {text : List Char} (h : ValueText text) :
    ∃ c rest, text = c :: rest ∧ isSpace c = false := by
  cases h with
  | scalar hne hplain =>
    obtain ⟨c, rest, rfl⟩ := exists_cons_of_ne_nil hne
    have hc := hplain c mem_cons_self
    simp only [isPlain, Bool.not_eq_true', Bool.or_eq_false_iff] at hc
    exact ⟨c, rest, rfl, hc.2⟩
  | string text => exact ⟨'"', _, rfl, rfl⟩
  | array items hitems => exact ⟨'[', _, rfl, rfl⟩
  | object members hmembers => exact ⟨'{', _, rfl, rfl⟩

/-- The member that a printed name and value make. -/
def printed (m : List Char × List Char) : Member := ⟨m.1, memberText m, m.2⟩

/-- One turn over a printed member finds it, and goes on after the comma or ends at the brace. -/
theorem membersFrom_memberText {m : List Char × List Char} (hm : ValueText m.2) (turns : ℕ)
    {c : Char}
    (hc : c = ',' ∨ c = '}') (rest : List Char) :
    membersFrom (turns + 1) (memberText m ++ c :: rest) =
      if c = ',' then (membersFrom turns (space rest)).map (printed m :: ·)
      else if space rest = [] then some [printed m] else none := by
  have hname : string (memberText m ++ c :: rest) =
      some (m.1, ':' :: ' ' :: (m.2 ++ c :: rest)) := by
    rw [memberText, List.append_assoc, string_quote]
    rfl
  have hblank : space (' ' :: (m.2 ++ c :: rest)) = m.2 ++ c :: rest := by
    obtain ⟨first, text, htext, hfirst⟩ := hm.exists_head
    rw [htext, List.cons_append]
    exact space_blank hfirst _
  have hvalue := valueEnd_valueText hm hc rest
  have htake : (memberText m ++ c :: rest).take
      ((memberText m ++ c :: rest).length - (c :: rest).length) = memberText m := by
    rw [List.length_append, Nat.add_sub_cancel, List.take_left]
  rw [membersFrom, hname]
  simp only [space_cons (c := ':') rfl, hblank, hvalue, htake]
  rcases hc with rfl | rfl
  · rw [space_cons rfl]
    rfl
  · rw [space_cons rfl]
    rfl

lemma membersFrom_joined {ms : List (List Char × List Char)} (hne : ms ≠ [])
    (hms : ∀ m ∈ ms, ValueText m.2) (turns : ℕ) (hturns : ms.length ≤ turns) :
    membersFrom turns (joined (ms.map memberText) ++ ['}']) = some (ms.map printed) := by
  induction ms generalizing turns with
  | nil => exact absurd rfl hne
  | cons m ms ih =>
    obtain ⟨turns, rfl⟩ : ∃ n, turns = n + 1 := ⟨turns - 1, by simp at hturns; omega⟩
    have hm := hms m List.mem_cons_self
    cases ms with
    | nil =>
      have htext : joined ([m].map memberText) ++ ['}'] = memberText m ++ '}' :: [] := by
        rw [List.map_cons, joined_cons, List.map_nil, List.flatMap_nil, List.append_nil]
      rw [htext, membersFrom_memberText hm turns (.inr rfl)]
      rfl
    | cons next ms =>
      have htext : joined ((m :: next :: ms).map memberText) ++ ['}'] =
          memberText m ++ ',' :: ' ' :: (joined ((next :: ms).map memberText) ++ ['}']) := by
        simp [joined_cons]
      have hblank : space (' ' :: (joined ((next :: ms).map memberText) ++ ['}'])) =
          joined ((next :: ms).map memberText) ++ ['}'] := by
        rw [List.map_cons, joined_cons]
        exact space_blank (c := '"') rfl _
      have hrest := ih (by simp) (fun m hmem => hms m (mem_cons_of_mem _ hmem))
        turns (by simp at hturns ⊢; omega)
      rw [htext, membersFrom_memberText hm turns (.inl rfl), if_pos rfl, hblank, hrest]
      rfl

lemma length_le_joined (parts : List (List Char)) (h : ∀ part ∈ parts, part ≠ []) :
    parts.length ≤ (joined parts).length := by
  have htail : ∀ parts : List (List Char),
      parts.length ≤ (parts.flatMap fun next => [',', ' '] ++ next).length := by
    intro parts
    induction parts with
    | nil => exact Nat.le_refl 0
    | cons part parts ih =>
      rw [flatMap_cons, length_append, length_append, length_cons]
      simp only [length_cons, length_nil]
      omega
  cases parts with
  | nil => exact Nat.zero_le _
  | cons part parts =>
    have hpart := length_pos_iff.2 (h part mem_cons_self)
    have hrest := htail parts
    rw [joined_cons, length_append, length_cons]
    omega

lemma members_object (ms : List (List Char × List Char)) (hms : ∀ m ∈ ms, ValueText m.2) :
    members ('{' :: (joined (ms.map memberText) ++ ['}'])) = some (ms.map printed) := by
  unfold members
  rw [space_cons rfl]
  cases ms with
  | nil => rfl
  | cons m ms =>
    have hlength : (m :: ms).length ≤
        (joined ((m :: ms).map memberText) ++ ['}']).length := by
      have hjoined := length_le_joined ((m :: ms).map memberText) (by
        intro part hpart
        obtain ⟨m', -, rfl⟩ := mem_map.1 hpart
        simp [memberText, quote])
      rw [length_map] at hjoined
      rw [length_append]
      omega
    have hfound := membersFrom_joined (by simp) hms _ hlength
    rw [map_cons, joined_cons] at hfound ⊢
    exact hfound

lemma image_render (row : List (String × Jsonb)) : image (render row) = some (texts row) := by
  have hmembers : members (render row) =
      some ((row.map fun m => (m.1.toList, m.2.text)).map printed) := by
    rw [← members_object (row.map fun m => (m.1.toList, m.2.text))]
    · rw [render, map_map]
      rfl
    · intro m hm
      obtain ⟨m', -, rfl⟩ := mem_map.1 hm
      exact m'.2.valid
  rw [image, hmembers]
  simp [texts, printed, Function.comp_def]

end Wamn.History
