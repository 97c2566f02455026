import Mathlib.Data.Rat.Defs
import Wamn.Lib.Decimal
import Wamn.Lib.Serde

/-!
# JSON texts

A printer and a reader of compact JSON, as a library whose texts carry the whole document, up to its
recursion limit. Unlike standard JSON, a fraction is written by its numerator and its denominator,
so that no rounding is involved.
-/

namespace Wamn.Lib.JsonText

open List Decimal Json Text

/-! ## Numbers -/

/-- A number with its sign. -/
def signed (n : ℤ) : List Char := (if n < 0 then '-' else '+') :: Nat.toDigits 10 n.natAbs

/-- The text of a number. Only a natural has no sign, only a fraction a slash, only the negative
zero a point. -/
def numberText : Number → List Char
  | .posInt n => Nat.toDigits 10 n
  | .negInt n => signed n
  | .float x => signed x.num ++ '/' :: Nat.toDigits 10 x.den
  | .negZero => ['-', '0', '.', '0']

/-- Read digits. -/
def readNat (text : List Char) : Option (ℕ × List Char) :=
  if text.takeWhile Char.isDigit = [] then none
  else some (Nat.ofDigitChars 10 (text.takeWhile Char.isDigit) 0, text.dropWhile Char.isDigit)

/-- Read digits after a sign, and after a slash the denominator. -/
def readSigned (sign : ℤ) (text : List Char) : Option (Number × List Char) :=
  match readNat text with
  | none => none
  | some (n, '/' :: rest) => (readNat rest).map fun den => (.float (mkRat (sign * n) den.1), den.2)
  | some (_, '.' :: '0' :: rest) => some (.negZero, rest)
  | some (n, rest) => some (.negInt (sign * n), rest)

/-- Read a number. -/
def readNumber : List Char → Option (Number × List Char)
  | '-' :: rest => readSigned (-1) rest
  | '+' :: rest => readSigned 1 rest
  | text => (readNat text).map fun n => (.posInt n.1, n.2)

/-- What can stand behind a value. -/
def Ends (rest : List Char) : Prop := ∀ c ∈ rest.head?, c = ',' ∨ c = ']' ∨ c = '}'

lemma readNat_toDigits (n : ℕ) {rest : List Char} (hrest : ∀ c ∈ rest.head?, c.isDigit = false) :
    readNat (Nat.toDigits 10 n ++ rest) = some (n, rest) := by
  have hdigits : ∀ c ∈ Nat.toDigits 10 n, c.isDigit = true := fun _ hc => isDigit_of_mem_toDigits hc
  rw [readNat, takeWhile_run hdigits hrest, dropWhile_run hdigits hrest,
    if_neg Nat.toDigits_ne_nil, Nat.ofDigitChars_ten_toDigits]

lemma Ends.not_digit {rest : List Char} (h : Ends rest) :
    ∀ c ∈ rest.head?, c.isDigit = false := by
  intro c hc
  rcases h c hc with rfl | rfl | rfl
  all_goals rfl

lemma sign_mul_natAbs (n : ℤ) : (if n < 0 then (-1 : ℤ) else 1) * n.natAbs = n := by
  split
  · omega
  · omega

lemma readNumber_signed (n : ℤ) (rest : List Char) :
    readNumber (signed n ++ rest) =
      readSigned (if n < 0 then -1 else 1) (Nat.toDigits 10 n.natAbs ++ rest) := by
  unfold signed
  split <;> rfl

lemma readNumber_numberText (n : Number) {rest : List Char} (h : Ends rest) :
    readNumber (numberText n ++ rest) = some (n, rest) := by
  cases n with
  | posInt n =>
    obtain ⟨c, digits, hdigits, hc⟩ := toDigits_eq_cons n
    have hplain : readNumber (Nat.toDigits 10 n ++ rest) =
        (readNat (Nat.toDigits 10 n ++ rest)).map fun n => (.posInt n.1, n.2) := by
      rw [hdigits]
      unfold readNumber
      split
      case h_3 => rfl
      all_goals
        rename_i heq
        obtain ⟨rfl, -⟩ := List.cons.inj heq
        cases hc
    rw [numberText, hplain, readNat_toDigits n h.not_digit]
    rfl
  | negInt n =>
    rw [numberText, readNumber_signed, readSigned, readNat_toDigits _ h.not_digit]
    split
    · rename_i heq
      cases heq
    · rename_i heq
      obtain ⟨-, rfl⟩ := Prod.mk.inj (Option.some.inj heq)
      rcases h '/' rfl with h | h | h
      all_goals cases h
    · rename_i heq
      obtain ⟨-, rfl⟩ := Prod.mk.inj (Option.some.inj heq)
      rcases h '.' rfl with h | h | h
      all_goals cases h
    · rename_i heq
      obtain ⟨rfl, rfl⟩ := Prod.mk.inj (Option.some.inj heq)
      rw [sign_mul_natAbs]
  | float x =>
    have hslash : ∀ c ∈ ('/' :: (Nat.toDigits 10 x.den ++ rest)).head?, c.isDigit = false := by
      rintro c ⟨⟩
      rfl
    rw [numberText, append_assoc, readNumber_signed, cons_append, readSigned,
      readNat_toDigits _ hslash]
    show (readNat (Nat.toDigits 10 x.den ++ rest)).map _ = _
    rw [readNat_toDigits _ h.not_digit]
    show some (Number.float (mkRat (_ * _) x.den), rest) = _
    rw [sign_mul_natAbs, Rat.mkRat_self]
  | negZero => rfl

/-! ## Documents -/

mutual

/-- The text of a document. -/
def text : Value → List Char
  | .null => ['n', 'u', 'l', 'l']
  | .bool true => ['t', 'r', 'u', 'e']
  | .bool false => ['f', 'a', 'l', 's', 'e']
  | .number n => numberText n
  | .string s => quote s.toList
  | .array items => '[' :: itemsText items
  | .object members => '{' :: membersText members

/-- The items of an array and its closing bracket. -/
def itemsText : List Value → List Char
  | [] => [']']
  | [v] => text v ++ [']']
  | v :: next :: items => text v ++ ',' :: itemsText (next :: items)

/-- The members of an object and its closing brace. -/
def membersText : Members → List Char
  | [] => ['}']
  | [(name, v)] => quote name.toList ++ ':' :: (text v ++ ['}'])
  | (name, v) :: next :: members =>
    quote name.toList ++ ':' :: (text v ++ ',' :: membersText (next :: members))

end

/-- Read this word. -/
def readWord (word : List Char) (v : Value) (text : List Char) : Option (Value × List Char) :=
  if text.take word.length = word then some (v, text.drop word.length) else none

mutual

/-- Read a value. Each call reads a character, so the length of the text bounds the turns. -/
def readValue : ℕ → List Char → Option (Value × List Char)
  | 0, _ => none
  | _ + 1, [] => none
  | turns + 1, c :: rest =>
    if c = '"' then
      (readString turns rest).map fun found => (.string (String.ofList found.1), found.2)
    else if c = '[' then
      if rest.head? = some ']' then some (.array [], rest.tail)
      else (readItems turns rest).map fun found => (.array found.1, found.2)
    else if c = '{' then
      if rest.head? = some '}' then some (.object [], rest.tail)
      else (readMembers turns rest).map fun found => (.object found.1, found.2)
    else if c = 'n' then readWord ['u', 'l', 'l'] .null rest
    else if c = 't' then readWord ['r', 'u', 'e'] (.bool true) rest
    else if c = 'f' then readWord ['a', 'l', 's', 'e'] (.bool false) rest
    else (readNumber (c :: rest)).map fun found => (.number found.1, found.2)

/-- Read the items of an array up to its closing bracket. -/
def readItems : ℕ → List Char → Option (List Value × List Char)
  | 0, _ => none
  | turns + 1, text =>
    match readValue turns text with
    | some (v, ',' :: rest) => (readItems turns rest).map fun found => (v :: found.1, found.2)
    | some (v, ']' :: rest) => some ([v], rest)
    | _ => none

/-- Read the members of an object up to its closing brace. -/
def readMembers : ℕ → List Char → Option (Members × List Char)
  | 0, _ => none
  | _ + 1, [] => none
  | turns + 1, _ :: rest =>
    match readString turns rest with
    | some (name, ':' :: rest) =>
      match readValue turns rest with
      | some (v, ',' :: rest) =>
        (readMembers turns rest).map fun found => ((String.ofList name, v) :: found.1, found.2)
      | some (v, '}' :: rest) => some ([(String.ofList name, v)], rest)
      | _ => none
    | _ => none

end

/-- In so many turns, the document is read back wherever it is printed. -/
def ReadsBack (v : Value) : Prop :=
  ∀ turns rest, (text v).length < turns → Ends rest →
    readValue turns (text v ++ rest) = some (v, rest)

lemma ReadsBack.of_succ {v : Value} (h : ∀ turns rest, (text v).length ≤ turns → Ends rest →
    readValue (turns + 1) (text v ++ rest) = some (v, rest)) : ReadsBack v := by
  intro turns rest hturns hends
  obtain ⟨turns, rfl⟩ := Nat.exists_eq_add_one.mpr (Nat.zero_lt_of_lt hturns)
  exact h turns rest (Nat.le_of_lt_succ hturns) hends

lemma length_lt_quote (s : List Char) : s.length < (quote s).length := by
  have hflat : s.length ≤ (s.flatMap escapeChar).length := by
    induction s with
    | nil => rfl
    | cons c s ih =>
      have hc : 0 < (escapeChar c).length := by
        unfold escapeChar
        split_ifs
        all_goals exact Nat.succ_pos _
      rw [List.flatMap_cons, List.length_append, List.length_cons]
      omega
  rw [quote, List.length_cons, List.length_append]
  omega

lemma numberText_head (n : Number) :
    ∃ c rest, numberText n = c :: rest ∧ (c.isDigit = true ∨ c = '-' ∨ c = '+') := by
  have hsigned : ∀ n : ℤ, ∃ c rest, signed n = c :: rest ∧
      (c.isDigit = true ∨ c = '-' ∨ c = '+') := by
    intro n
    refine ⟨_, _, rfl, ?_⟩
    by_cases hn : n < 0
    · simp [hn]
    · simp [hn]
  cases n with
  | posInt n =>
    obtain ⟨c, digits, hdigits, hc⟩ := toDigits_eq_cons n
    exact ⟨c, digits, hdigits, .inl hc⟩
  | negInt n => exact hsigned n
  | float x =>
    obtain ⟨c, rest, htext, hc⟩ := hsigned x.num
    exact ⟨c, rest ++ '/' :: Nat.toDigits 10 x.den, by rw [numberText, htext, List.cons_append], hc⟩
  | negZero => exact ⟨'-', _, rfl, .inr (.inl rfl)⟩

lemma ne_of_starts {c d : Char} (hc : c.isDigit = true ∨ c = '-' ∨ c = '+')
    (hd : d.isDigit = false ∧ d ≠ '-' ∧ d ≠ '+') : c ≠ d := by
  rintro rfl
  rcases hc with h | h | h
  · rw [hd.1] at h
    cases h
  · exact hd.2.1 h
  · exact hd.2.2 h

lemma text_head (v : Value) (rest : List Char) : (text v ++ rest).head? ≠ some ']' := by
  cases v with
  | null => simp [text]
  | bool b => cases b <;> simp [text]
  | number n =>
    obtain ⟨c, tail, htext, hc⟩ := numberText_head n
    rw [text, htext]
    simpa using ne_of_starts hc (by decide)
  | string s => simp [text, quote]
  | array items | object members => simp [text]

lemma readsBack_number (n : Number) : ReadsBack (.number n) := by
  refine .of_succ fun turns rest _ hends => ?_
  obtain ⟨c, tail, htext, hc⟩ := numberText_head n
  have hnumber := readNumber_numberText n hends
  rw [text, htext, List.cons_append] at *
  rw [readValue, if_neg (ne_of_starts hc (by decide)), if_neg (ne_of_starts hc (by decide)),
    if_neg (ne_of_starts hc (by decide)), if_neg (ne_of_starts hc (by decide)),
    if_neg (ne_of_starts hc (by decide)), if_neg (ne_of_starts hc (by decide)), hnumber]
  rfl

lemma readsBack_string (s : String) : ReadsBack (.string s) := by
  refine .of_succ fun turns rest hturns _ => ?_
  have hlength := length_lt_quote s.toList
  rw [text] at hturns ⊢
  have hinside : readString turns (s.toList.flatMap escapeChar ++ '"' :: rest) =
      some (s.toList, rest) := readString_quoted _ _ (by omega)
  rw [quote, cons_append, append_assoc, readValue, if_pos rfl, cons_append,
    nil_append, hinside, Option.map_some, String.ofList_toList]

lemma readItems_itemsText {v : Value} {items : List Value} (h : ∀ w ∈ v :: items, ReadsBack w)
    {turns : ℕ} (hturns : (itemsText (v :: items)).length < turns) (rest : List Char) :
    readItems turns (itemsText (v :: items) ++ rest) = some (v :: items, rest) := by
  obtain ⟨turns, rfl⟩ := Nat.exists_eq_add_one.2 (Nat.zero_lt_of_lt hturns)
  induction items generalizing v turns with
  | nil =>
    have hv := h v mem_cons_self turns (']' :: rest)
      (by simp only [itemsText, length_append, length_cons] at hturns; omega)
      (by rintro c ⟨⟩; exact .inr (.inl rfl))
    rw [itemsText, append_assoc, singleton_append, readItems, hv]
    rfl
  | cons next items ih =>
    rw [itemsText, length_append, length_cons] at hturns
    obtain ⟨turns, rfl⟩ : ∃ n, turns = n + 1 := ⟨turns - 1, by omega⟩
    have hv := h v mem_cons_self (turns + 1) (',' :: (itemsText (next :: items) ++ rest))
      (by omega) (by rintro c ⟨⟩; exact .inl rfl)
    rw [itemsText, append_assoc, cons_append, readItems, hv]
    simp only [ih (fun w hmem => h w (mem_cons_of_mem _ hmem)) turns (by omega),
      Option.map_some]

lemma readMembers_member (name : String) {v : Value} (hv : ReadsBack v) (turns : ℕ)
    (hturns : (quote name.toList).length + (text v).length < turns) (c : Char) (rest : List Char)
    (hends : Ends (c :: rest)) :
    readMembers (turns + 1) (quote name.toList ++ ':' :: (text v ++ c :: rest)) =
      if c = ',' then (readMembers turns rest).map fun found => ((name, v) :: found.1, found.2)
      else if c = '}' then some ([(name, v)], rest)
      else none := by
  have hlength := length_lt_quote name.toList
  have hname : readString turns (name.toList.flatMap escapeChar ++
      '"' :: ':' :: (text v ++ c :: rest)) = some (name.toList, ':' :: (text v ++ c :: rest)) :=
    readString_quoted _ _ (by omega)
  have hvalue := hv turns (c :: rest) (by omega) hends
  have htext : quote name.toList ++ ':' :: (text v ++ c :: rest) =
      '"' :: (name.toList.flatMap escapeChar ++ '"' :: ':' :: (text v ++ c :: rest)) := by
    simp [quote]
  rw [htext, readMembers, hname]
  simp only [hvalue, String.ofList_toList]
  rcases hends c rfl with rfl | rfl | rfl
  all_goals rfl

lemma readMembers_membersText {m : String × Value} {members : Members}
    (h : ∀ other ∈ m :: members, ReadsBack other.2) {turns : ℕ}
    (hturns : (membersText (m :: members)).length < turns) (rest : List Char) :
    readMembers turns (membersText (m :: members) ++ rest) = some (m :: members, rest) := by
  obtain ⟨turns, rfl⟩ := Nat.exists_eq_add_one.2 (Nat.zero_lt_of_lt hturns)
  induction members generalizing m turns with
  | nil =>
    simp only [membersText, length_append, length_cons] at hturns
    have hm := readMembers_member m.1 (h m mem_cons_self) turns (by omega) '}' rest
      (by rintro c ⟨⟩; exact .inr (.inr rfl))
    simpa [membersText] using hm
  | cons next members ih =>
    simp only [membersText, length_append, length_cons] at hturns
    obtain ⟨turns, rfl⟩ : ∃ n, turns = n + 1 := ⟨turns - 1, by omega⟩
    have hm := readMembers_member m.1 (h m mem_cons_self) (turns + 1) (by omega) ','
      (membersText (next :: members) ++ rest) (by rintro c ⟨⟩; exact .inl rfl)
    rw [ih (fun other hmem => h other (mem_cons_of_mem _ hmem)) turns (by omega)] at hm
    simpa [membersText] using hm

lemma readsBack (v : Value) : ReadsBack v := by
  induction v using Value.treeInduction with
  | null => exact .of_succ fun _ _ _ _ => rfl
  | bool b => exact .of_succ fun _ _ _ _ => by cases b <;> rfl
  | number n => exact readsBack_number n
  | string s => exact readsBack_string s
  | array items ih =>
    refine .of_succ fun turns rest hturns _ => ?_
    cases items with
    | nil => rfl
    | cons v items =>
      have hhead : (itemsText (v :: items) ++ rest).head? ≠ some ']' := by
        cases items with
        | nil => simpa [itemsText] using text_head v (']' :: rest)
        | cons next items =>
          simpa [itemsText] using text_head v (',' :: (itemsText (next :: items) ++ rest))
      rw [text, length_cons] at hturns
      rw [text, cons_append, readValue, if_neg (by decide), if_pos rfl, if_neg hhead,
        readItems_itemsText ih (by omega)]
      rfl
  | object members ih =>
    refine .of_succ fun turns rest hturns _ => ?_
    cases members with
    | nil => rfl
    | cons m members =>
      have hhead : (membersText (m :: members) ++ rest).head? ≠ some '}' := by
        cases members <;> simp [membersText, quote]
      rw [text, length_cons] at hturns
      rw [text, cons_append, readValue, if_neg (by decide), if_neg (by decide), if_pos rfl,
        if_neg hhead, readMembers_membersText ih (by omega)]
      rfl

/-! ## The library -/

/-- The bytes of a document. -/
def toVec (v : Value) : List UInt8 := utf8 (text v)

/-- Read a document, and nothing behind it. -/
def read (bytes : List UInt8) : Option Value :=
  match ofUtf8 bytes with
  | none => none
  | some s =>
    match readValue (s.toList.length + 1) s.toList with
    | some (v, []) => some v
    | _ => none

/-- The reader takes every printed document back. -/
theorem read_toVec (v : Value) : read (toVec v) = some v := by
  have hbytes : ofUtf8 (toVec v) = some (String.ofList (text v)) := by
    have hof := ofUtf8_utf8 (String.ofList (text v))
    rwa [String.toList_ofList] at hof
  have hread := readsBack v ((text v).length + 1) [] (Nat.lt_succ_self _) (by simp [Ends])
  rw [append_nil] at hread
  simp [read, hbytes, hread]

/-- The library of these texts, with maps in the given order. -/
def serde (o : MapOrder) : SerdeJson where
  order := o
  toVec := toVec
  read bytes := (read bytes).filter (·.depth ≤ SerdeJson.recursionLimit)

lemma readsOwn_serde (o : MapOrder) : (serde o).ReadsOwn := by
  intro document _
  show (read (toVec document)).filter _ = _
  rw [read_toVec, Option.filter_some]
  simp only [decide_eq_true_eq]

end Wamn.Lib.JsonText
