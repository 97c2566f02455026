import Mathlib.Algebra.Group.Nat.Defs
import Mathlib.Data.List.Infix
import Mathlib.Data.List.TakeWhile

/-!
# The lexical structure of PostgreSQL

The scanner of PostgreSQL, with standard conforming strings, on a text as a list of bytes. The
lexemes are those of its rules, the longest match first, except that every whitespace byte is a
lexeme. Escapes within strings and names are not decoded or checked: only their ends matter here.
`next` yields the next lexeme and the rest, and nothing where the scanner reports an error.
-/

namespace Wamn.Lib

open Option List

/-! ## Scanners -/

/-- A scanner of texts, one lexeme after the other. -/
structure Scanner (τ κ : Type*) where
  /-- Nothing is left to read. -/
  done : τ → Bool
  /-- The next lexeme, or none if there is an error. -/
  next : τ → Option (κ × τ)
  size : τ → ℕ
  size_next : ∀ {s k t}, next s = some (k, t) → size t < size s

namespace Scanner

variable {τ κ : Type*} (S : Scanner τ κ)

/-- The lexemes, in so many steps at most. -/
def scanFuel : ℕ → τ → Option (List κ)
  | 0, s => if S.done s then some [] else none
  | fuel + 1, s =>
    if S.done s then some []
    else (S.next s).bind fun (k, t) => (scanFuel fuel t).map (k :: ·)

/-- The lexemes of a text, if it has no error. -/
def scan (s : τ) : Option (List κ) :=
  S.scanFuel (S.size s) s

end Scanner

namespace PgScan

/-! ## Bytes -/

variable (b : ℕ) (text : List ℕ)

/-- Space, tab, newline, vertical tab, form feed, carriage return. -/
def isSpace : Bool :=
  b == 32 || (decide (9 ≤ b) && decide (b ≤ 13))

/-- Newline or carriage return. -/
def isNewline : Bool :=
  b == 10 || b == 13

/-- A decimal digit. -/
def isDigit : Bool :=
  decide (48 ≤ b) && decide (b ≤ 57)

/-- A letter, an underscore, or a byte that is not ASCII. -/
def isNameStart : Bool :=
  (decide (65 ≤ b) && decide (b ≤ 90)) || (decide (97 ≤ b) && decide (b ≤ 122)) || b == 95 ||
    decide (128 ≤ b)

/-- What goes on in the tag of a dollar quote. -/
def isTagCont : Bool :=
  isNameStart b || isDigit b

/-- What goes on in a name. -/
def isNameCont : Bool :=
  isTagCont b || b == 36

/-- A hexadecimal digit. -/
def isHex : Bool :=
  isDigit b || (decide (65 ≤ b) && decide (b ≤ 70)) || (decide (97 ≤ b) && decide (b ≤ 102))

/-- The characters of operators, `! # % & * + - / < = > ? @ ^ ~` and the backquote and the bar. -/
def isOperator : Bool :=
  [33, 35, 37, 38, 42, 43, 45, 47, 60, 61, 62, 63, 64, 94, 96, 124, 126].contains b

/-- The characters that make an operator none of standard SQL. -/
def isSpecial : Bool :=
  [33, 35, 37, 38, 63, 64, 94, 96, 124, 126].contains b

/-- Plus or minus. -/
def isSign : Bool :=
  b == 43 || b == 45

/-- The first byte has a property. -/
def headIs (p : ℕ → Bool) : List ℕ → Bool
  | [] => false
  | a :: _ => p a

/-! ## The ends of lexemes

Each function is given what follows the beginning of a lexeme and yields the rest behind it. -/

/-- The end of a block comment within `depth` others. -/
def blockEnd : ℕ → List ℕ → Option (List ℕ)
  | _, [] => none
  | _, [_] => none
  | depth, a :: b :: r =>
    if a = 47 ∧ b = 42 then blockEnd (depth + 1) r
    else if a = 42 ∧ b = 47 then
      match depth with
      | 0 => some r
      | depth + 1 => blockEnd depth r
    else blockEnd depth (b :: r)

/-- The kinds of string constants, by their prefix: none, `E`, `B` or `X`, `U&`. -/
inductive Style where
  | plain
  | escape
  | bit
  | unicode
  deriving DecidableEq

/-- The rest behind the closing quote of a string. -/
def stringEnd (style : Style) : List ℕ → Option (List ℕ)
  | [] => none
  | [a] => if a = 39 then some [] else none
  | a :: b :: r =>
    if a = 92 ∧ style = .escape then stringEnd style r
    else if a = 39 then
      if b = 39 ∧ style ≠ .bit then stringEnd style r else some (b :: r)
    else stringEnd style (b :: r)

/-- The rest from where a string constant goes on: behind whitespace and line comments with a
newline among them, and a quote. -/
def gap (inComment newline : Bool) : List ℕ → Option (List ℕ)
  | [] => none
  | a :: r =>
    if inComment then
      if isNewline a then gap false true r else gap true newline r
    else if isSpace a then gap false (newline || isNewline a) r
    else if a = 39 then
      if newline then some r else none
    else
      match r with
      | [] => none
      | b :: r' => if a = 45 ∧ b = 45 then gap true newline r' else none

/-- The rest behind a string constant and its continuations. -/
def stringRest (style : Style) : ℕ → List ℕ → Option (List ℕ)
  | 0, text => stringEnd style text
  | fuel + 1, text =>
    (stringEnd style text).bind fun r =>
      match gap false false r with
      | some r' => stringRest style fuel r'
      | none => some r

/-- A quoted name and the rest behind its closing quote. -/
def quotedEnd : List ℕ → Option (List ℕ × List ℕ)
  | [] => none
  | [a] => if a = 34 then some ([], []) else none
  | a :: b :: r =>
    if a = 34 then
      if b = 34 then (quotedEnd r).map fun (name, rest) => (34 :: name, rest)
      else some ([], b :: r)
    else (quotedEnd (b :: r)).map fun (name, rest) => (a :: name, rest)

/-- The tag of a dollar quote and the rest behind its second dollar. -/
def tagEnd : List ℕ → Option (List ℕ × List ℕ)
  | [] => none
  | a :: r =>
    if a = 36 then some ([], r)
    else if isNameStart a then
      match r.dropWhile isTagCont with
      | [] => none
      | c :: rest => if c = 36 then some (a :: r.takeWhile isTagCont, rest) else none
    else none

/-- The rest behind the first occurrence of a delimiter. -/
def find (delimiter : List ℕ) : List ℕ → Option (List ℕ)
  | [] => none
  | a :: r =>
    if delimiter.isPrefixOf (a :: r) then some ((a :: r).drop delimiter.length)
    else find delimiter r

/-- The rest behind digits, each of which may have an underscore before it. -/
def digitsRest (isDigit : ℕ → Bool) : List ℕ → List ℕ
  | [] => []
  | [a] => if isDigit a then [] else [a]
  | a :: b :: r =>
    if isDigit a then digitsRest isDigit (b :: r)
    else if a = 95 ∧ isDigit b then digitsRest isDigit r
    else a :: b :: r

/-- The rest behind an exponent, if there is one. -/
def exponentRest : List ℕ → Option (List ℕ)
  | a :: b :: r =>
    if a = 69 ∨ a = 101 then
      if isDigit b then some (digitsRest isDigit r)
      else if isSign b then
        if headIs isDigit r then some (digitsRest isDigit r) else none
      else some (a :: b :: r)
    else some (a :: b :: r)
  | r => some r

/-- The rest behind an integer that is not decimal, from its digits on. -/
def radixRest (isDigit : ℕ → Bool) (r : List ℕ) : Option (List ℕ) :=
  if (digitsRest isDigit r).length = r.length then none else some (digitsRest isDigit r)

/-- The rest behind the digits before a point, from the point on. -/
def fractionRest : List ℕ → Option (List ℕ)
  | 46 :: 46 :: r => some (46 :: 46 :: r)
  | 46 :: r => exponentRest (if headIs isDigit r then digitsRest isDigit r else r)
  | r => exponentRest r

/-- The rest behind a numeric constant. -/
def numberEnd : List ℕ → Option (List ℕ)
  | a :: b :: r =>
    if a = 46 then exponentRest (digitsRest isDigit (b :: r))
    else if a = 48 ∧ (b = 120 ∨ b = 88) then radixRest isHex r
    else if a = 48 ∧ (b = 111 ∨ b = 79) then
      radixRest (fun d => decide (48 ≤ d) && decide (d ≤ 55)) r
    else if a = 48 ∧ (b = 98 ∨ b = 66) then radixRest (fun d => d == 48 || d == 49) r
    else fractionRest (digitsRest isDigit (b :: r))
  | [_] => some []
  | [] => none

/-- What a text has before the given rest of it. -/
def cut (text rest : List ℕ) : List ℕ :=
  text.take (text.length - rest.length)

lemma cut_append (text rest : List ℕ) : cut (text ++ rest) rest = text := by
  rw [cut, length_append, Nat.add_sub_cancel, take_left]

/-- A name follows a numeric constant. The letters of the constant itself begin one, which then
takes a digit or a dollar too. -/
def isJunk (number rest : List ℕ) : Bool :=
  headIs isNameStart rest ||
    headIs isNameCont rest && (number.reverse.takeWhile isNameCont).any isNameStart

/-- The part before the first mark of a comment. -/
def untilComment : List ℕ → List ℕ
  | [] => []
  | [a] => [a]
  | a :: b :: r =>
    if (a = 45 ∧ b = 45) ∨ (a = 47 ∧ b = 42) then [] else a :: untilComment (b :: r)

/-- An operator of standard SQL has no sign at its end, unless it is one. -/
def trimSigns : List ℕ → List ℕ
  | [] => []
  | a :: r =>
    if (a :: r.dropLast).all (fun b => !isSpecial b) then a :: (r.reverse.dropWhile isSign).reverse
    else a :: r

/-- The operator at the beginning. -/
def operator : List ℕ :=
  trimSigns (untilComment (text.takeWhile isOperator))

/-- The rest behind an operator or another symbol. -/
def symbolRest : List ℕ → List ℕ
  | [] => []
  | [_] => []
  | a :: b :: r =>
    if (a = 58 ∧ (b = 58 ∨ b = 61)) ∨ (a = 46 ∧ b = 46) then r
    else if isOperator a then (a :: b :: r).drop (operator (a :: b :: r)).length
    else b :: r

/-! ## Lexemes -/

/-- The kinds of lexemes. -/
inductive Kind where
  | space
  | lineComment
  | blockComment
  | string (style : Style)
  /-- The `N` before a string constant. -/
  | national
  | dollar
  | quotedName (name : List ℕ)
  /-- `U&"…"`, whose name has escapes. -/
  | unicodeName (name : List ℕ)
  | word
  | parameter (index : ℕ)
  | number
  | symbol
  deriving DecidableEq

/-- The number that digits write. -/
def decimal (digits : List ℕ) : ℕ :=
  digits.foldl (fun n d => 10 * n + (d - 48)) 0

/-- What begins with a dollar: a dollar quote, a parameter, or the dollar alone. -/
def dollarNext (r : List ℕ) : Option (Kind × List ℕ) :=
  match tagEnd r with
  | some (tag, rest) => (find (36 :: (tag ++ [36])) rest).map fun rest => (.dollar, rest)
  | none =>
    if headIs isDigit r then
      if headIs isNameStart (r.dropWhile isDigit) then none
      else if 2147483647 < decimal (r.takeWhile isDigit) then none
      else some (.parameter (decimal (r.takeWhile isDigit)), r.dropWhile isDigit)
    else some (.symbol, r)

/-- A string constant, behind its first quote. -/
def stringNext (style : Style) (r : List ℕ) : Option (Kind × List ℕ) :=
  (stringRest style r.length r).map fun rest => (.string style, rest)

/-- A quoted identifier, behind its first quote. It may not be empty. -/
def quotedNext (kind : List ℕ → Kind) (r : List ℕ) : Option (Kind × List ℕ) :=
  (quotedEnd r).bind fun (name, rest) => if name = [] then none else some (kind name, rest)

/-- The kind of string constant with this letter before it. -/
def prefixStyle (a : ℕ) : Option Style :=
  if a = 69 ∨ a = 101 then some .escape
  else if a = 66 ∨ a = 98 ∨ a = 88 ∨ a = 120 then some .bit
  else none

/-- What begins with a letter: a string constant with a prefix, or a name. -/
def nameNext (a : ℕ) (r : List ℕ) : Option (Kind × List ℕ) :=
  match r with
  | 39 :: r' =>
    match prefixStyle a with
    | some style => stringNext style r'
    | none => if a = 78 ∨ a = 110 then some (.national, r) else some (.word, r)
  | 38 :: 39 :: r' => if a = 85 ∨ a = 117 then stringNext .unicode r' else some (.word, r)
  | 38 :: 34 :: r' =>
    if a = 85 ∨ a = 117 then quotedNext .unicodeName r' else some (.word, r)
  | _ => some (.word, r.dropWhile isNameCont)

/-- A numeric constant without junk behind it. -/
def numberNext : Option (Kind × List ℕ) :=
  (numberEnd text).bind fun rest =>
    if isJunk (cut text rest) rest then none else some (.number, rest)

/-- A comment or a symbol. -/
def symbolNext : Option (Kind × List ℕ) :=
  match text with
  | 45 :: 45 :: r => some (.lineComment, r.dropWhile fun b => !isNewline b)
  | 47 :: 42 :: r => (blockEnd 0 r).map fun rest => (.blockComment, rest)
  | text => some (.symbol, symbolRest text)

/-- The kind of the next lexeme, and the rest. -/
def nextKind : List ℕ → Option (Kind × List ℕ)
  | [] => none
  | a :: r =>
    if isSpace a then some (.space, r)
    else if a = 39 then stringNext .plain r
    else if a = 34 then quotedNext .quotedName r
    else if a = 36 then dollarNext r
    else if isNameStart a then nameNext a r
    else if isDigit a || a == 46 && headIs isDigit r then numberNext (a :: r)
    else symbolNext (a :: r)

/-- A lexeme: its kind and its text. -/
structure Lexeme where
  kind : Kind
  text : List ℕ
  deriving DecidableEq

/-- The next lexeme and the rest. -/
def next : Option (Lexeme × List ℕ) :=
  (nextKind text).map fun (kind, rest) => (⟨kind, cut text rest⟩, rest)

/-! ## The text of a lexeme -/

section Suffix

variable {a : ℕ} {r text rest : List ℕ}

lemma suffix_of_blockEnd {depth : ℕ} (h : blockEnd depth text = some rest) : rest <:+ text := by
  fun_induction blockEnd depth text with
  | case1 | case2 => cases h
  | case3 depth a b r _ ih => exact (ih h).trans (suffix_append [a, b] r)
  | case4 a b r =>
    cases h
    exact suffix_append [a, b] _
  | case5 a b r _ _ depth ih => exact (ih h).trans (suffix_append [a, b] r)
  | case6 depth a b r _ _ ih => exact (ih h).trans (suffix_cons a _)

lemma suffix_of_stringEnd {style : Style} (h : stringEnd style text = some rest) :
    rest <:+ text := by
  fun_induction stringEnd style text with
  | case1 => cases h
  | case2 =>
    cases h
    exact nil_suffix
  | case3 => cases h
  | case4 a b r _ ih => exact (ih h).trans (suffix_append [a, b] r)
  | case5 b r _ _ ih => exact (ih h).trans (suffix_append [39, b] r)
  | case6 b r =>
    cases h
    exact suffix_cons _ _
  | case7 a b r _ _ ih => exact (ih h).trans (suffix_cons a _)

lemma suffix_of_gap {inComment newline : Bool} (h : gap inComment newline text = some rest) :
    rest <:+ text := by
  fun_induction gap inComment newline text with
  | case1 => cases h
  | case2 newline a r _ ih | case3 newline a r _ ih | case4 inComment newline a r _ _ ih =>
    exact (ih h).trans (suffix_cons a r)
  | case5 inComment r =>
    cases h
    exact suffix_cons _ _
  | case6 | case7 => cases h
  | case8 inComment newline a _ _ _ b r _ ih => exact (ih h).trans (suffix_append [a, b] r)
  | case9 => cases h

lemma suffix_of_stringRest {style : Style} {fuel : ℕ}
    (h : stringRest style fuel text = some rest) : rest <:+ text := by
  induction fuel generalizing text with
  | zero => exact suffix_of_stringEnd h
  | succ fuel ih =>
    obtain ⟨r, hend, h⟩ := bind_eq_some_iff.1 h
    cases hgap : gap false false r with
    | none =>
      simp only [hgap] at h
      cases h
      exact suffix_of_stringEnd hend
    | some r' =>
      simp only [hgap] at h
      exact (ih h).trans ((suffix_of_gap hgap).trans (suffix_of_stringEnd hend))

lemma suffix_of_quotedEnd {name : List ℕ} (h : quotedEnd text = some (name, rest)) :
    rest <:+ text := by
  fun_induction quotedEnd text generalizing name with
  | case1 => cases h
  | case2 =>
    cases h
    exact nil_suffix
  | case3 => cases h
  | case4 r ih =>
    obtain ⟨⟨name', rest'⟩, hend, heq⟩ := map_eq_some_iff.1 h
    cases heq
    exact (ih hend).trans (suffix_append [34, 34] r)
  | case5 b r =>
    cases h
    exact suffix_cons _ _
  | case6 a b r _ ih =>
    obtain ⟨⟨name', rest'⟩, hend, heq⟩ := map_eq_some_iff.1 h
    cases heq
    exact (ih hend).trans (suffix_cons a _)

lemma suffix_of_tagEnd {tag : List ℕ} (h : tagEnd text = some (tag, rest)) : rest <:+ text := by
  unfold tagEnd at h
  split at h
  · cases h
  · rename_i a r
    split at h
    · cases h
      exact suffix_cons _ _
    · split at h
      · split at h
        · cases h
        · rename_i c rest' hdrop
          split at h
          · cases h
            have hsuffix : c :: rest <:+ r := hdrop ▸ dropWhile_suffix _
            exact (suffix_cons c rest).trans (hsuffix.trans (suffix_cons a r))
          · cases h
      · cases h

lemma suffix_of_find {delimiter : List ℕ} (h : find delimiter text = some rest) :
    rest <:+ text := by
  induction text with
  | nil => cases h
  | cons a r ih =>
    unfold find at h
    split at h
    · cases h
      exact drop_suffix _ _
    · exact (ih h).trans (suffix_cons a r)

lemma suffix_digitsRest (isDigit : ℕ → Bool) (text : List ℕ) :
    digitsRest isDigit text <:+ text := by
  fun_induction digitsRest isDigit text with
  | case1 => exact suffix_refl _
  | case2 => exact nil_suffix
  | case3 => exact suffix_refl _
  | case4 a b r _ ih => exact ih.trans (suffix_cons a _)
  | case5 a b r _ _ ih => exact ih.trans (suffix_append [a, b] r)
  | case6 => exact suffix_refl _

lemma suffix_of_exponentRest (h : exponentRest text = some rest) : rest <:+ text := by
  unfold exponentRest at h
  split at h
  · rename_i a b r
    repeat' split at h
    all_goals first
      | cases h
        exact suffix_refl _
      | cases h
        exact (suffix_digitsRest _ _).trans (suffix_append [a, b] r)
      | cases h
  · cases h
    exact suffix_refl _

lemma suffix_of_radixRest {isDigit : ℕ → Bool} (h : radixRest isDigit text = some rest) :
    rest <:+ text := by
  unfold radixRest at h
  split at h
  · cases h
  · cases h
    exact suffix_digitsRest _ _

lemma suffix_of_fractionRest (h : fractionRest text = some rest) : rest <:+ text := by
  unfold fractionRest at h
  split at h
  · cases h
    exact suffix_refl _
  · rename_i r _
    have hsuffix := suffix_of_exponentRest h
    split at hsuffix
    · exact hsuffix.trans ((suffix_digitsRest _ _).trans (suffix_cons 46 r))
    · exact hsuffix.trans (suffix_cons 46 r)
  · exact suffix_of_exponentRest h

lemma suffix_of_numberEnd (h : numberEnd (a :: text) = some rest) : rest <:+ text := by
  cases text with
  | nil =>
    cases h
    exact suffix_refl _
  | cons b r =>
    simp only [numberEnd] at h
    repeat' split at h
    · exact (suffix_of_exponentRest h).trans (suffix_digitsRest _ _)
    · exact (suffix_of_radixRest h).trans (suffix_cons b r)
    · exact (suffix_of_radixRest h).trans (suffix_cons b r)
    · exact (suffix_of_radixRest h).trans (suffix_cons b r)
    · exact (suffix_of_fractionRest h).trans (suffix_digitsRest _ _)

/-- An operator has its first byte, unless a comment begins with that. -/
theorem operator_ne_nil (ha : isOperator a = true) (hline : ∀ r', a :: r = 45 :: 45 :: r' → False)
    (hblock : ∀ r', a :: r = 47 :: 42 :: r' → False) : operator (a :: r) ≠ [] := by
  have huntil : untilComment ((a :: r).takeWhile isOperator) ≠ [] := by
    rw [takeWhile_cons, if_pos ha]
    cases r with
    | nil => exact cons_ne_nil a []
    | cons b r =>
      rw [takeWhile_cons]
      split
      · rw [untilComment, if_neg]
        · exact cons_ne_nil _ _
        · rintro (⟨rfl, rfl⟩ | ⟨rfl, rfl⟩)
          · exact hline r rfl
          · exact hblock r rfl
      · exact cons_ne_nil a []
  obtain ⟨b, op, hop⟩ := exists_cons_of_ne_nil huntil
  rw [operator, hop, trimSigns]
  split
  · exact cons_ne_nil _ _
  · exact cons_ne_nil _ _

lemma suffix_of_symbolRest (hline : ∀ r', a :: r = 45 :: 45 :: r' → False)
    (hblock : ∀ r', a :: r = 47 :: 42 :: r' → False) : symbolRest (a :: r) <:+ r := by
  cases r with
  | nil => exact suffix_refl _
  | cons b r =>
    simp only [symbolRest]
    split
    · exact suffix_cons b r
    · split
      · rename_i hop
        obtain ⟨c, op, heq⟩ := exists_cons_of_ne_nil (operator_ne_nil hop hline hblock)
        rw [heq, length_cons, drop_succ_cons]
        exact drop_suffix _ _
      · exact suffix_refl _

end Suffix

/-! ## The next lexeme -/

section Next

variable {a : ℕ} {r text rest : List ℕ} {kind : Kind} {x : Lexeme}

lemma suffix_of_stringNext {style : Style} (h : stringNext style r = some (kind, rest)) :
    rest <:+ r := by
  obtain ⟨rest', hrest, heq⟩ := map_eq_some_iff.1 h
  cases heq
  exact suffix_of_stringRest hrest

lemma suffix_of_quotedNext {toKind : List ℕ → Kind}
    (h : quotedNext toKind r = some (kind, rest)) :
    rest <:+ r := by
  obtain ⟨⟨name, rest'⟩, hend, h⟩ := bind_eq_some_iff.1 h
  simp only at h
  split at h
  · cases h
  · cases h
    exact suffix_of_quotedEnd hend

lemma suffix_of_dollarNext (h : dollarNext r = some (kind, rest)) : rest <:+ r := by
  unfold dollarNext at h
  split at h
  · rename_i tag body htag
    obtain ⟨rest', hend, heq⟩ := map_eq_some_iff.1 h
    cases heq
    exact (suffix_of_find hend).trans (suffix_of_tagEnd htag)
  · split_ifs at h
    · cases h
      exact dropWhile_suffix _
    · cases h
      exact suffix_refl _

lemma suffix_of_nameNext (h : nameNext a r = some (kind, rest)) : rest <:+ r := by
  unfold nameNext at h
  split at h
  · split at h
    · exact (suffix_of_stringNext h).trans (suffix_cons 39 _)
    · split at h
      all_goals
        cases h
        exact suffix_refl _
  · split at h
    · exact (suffix_of_stringNext h).trans (suffix_append [38, 39] _)
    · cases h
      exact suffix_refl _
  · split at h
    · exact (suffix_of_quotedNext h).trans (suffix_append [38, 34] _)
    · cases h
      exact suffix_refl _
  · cases h
    exact dropWhile_suffix _

lemma suffix_of_symbolNext (h : symbolNext (a :: r) = some (kind, rest)) : rest <:+ r := by
  unfold symbolNext at h
  split at h
  · rename_i heq
    cases heq
    cases h
    exact (dropWhile_suffix _).trans (suffix_cons 45 _)
  · rename_i heq
    cases heq
    obtain ⟨rest', hend, heq⟩ := map_eq_some_iff.1 h
    cases heq
    exact (suffix_of_blockEnd hend).trans (suffix_cons 42 _)
  · rename_i hline hblock
    cases h
    exact suffix_of_symbolRest hline hblock

lemma suffix_of_nextKind (h : nextKind (a :: r) = some (kind, rest)) : rest <:+ r := by
  simp only [nextKind] at h
  split_ifs at h
  · cases h
    exact suffix_refl _
  · exact suffix_of_stringNext h
  · exact suffix_of_quotedNext h
  · exact suffix_of_dollarNext h
  · exact suffix_of_nameNext h
  · obtain ⟨rest', hend, h⟩ := bind_eq_some_iff.1 h
    split at h
    · cases h
    · cases h
      exact suffix_of_numberEnd hend
  · exact suffix_of_symbolNext h

lemma text_of_next (h : next text = some (x, rest)) : x.text ≠ [] ∧ x.text ++ rest = text := by
  obtain ⟨⟨kind, rest'⟩, hkind, heq⟩ := map_eq_some_iff.1 h
  cases heq
  cases text with
  | nil => cases hkind
  | cons a r =>
    obtain ⟨before, rfl⟩ := suffix_of_nextKind hkind
    have hcut : cut (a :: (before ++ rest)) rest = a :: before := cut_append (a :: before) rest
    exact ⟨by simp [hcut], by simp [hcut]⟩

lemma length_of_next (h : next text = some (x, rest)) : rest.length < text.length := by
  obtain ⟨hne, rfl⟩ := text_of_next h
  rw [length_append]
  exact Nat.lt_add_of_pos_left (length_pos_of_ne_nil hne)

end Next

/-- The scanner of PostgreSQL. -/
def scanner : Scanner (List ℕ) Lexeme where
  done := List.isEmpty
  next := next
  size := List.length
  size_next := length_of_next

/-- The lexemes of a text. -/
def scan (text : List ℕ) : Option (List Lexeme) :=
  scanner.scan text

/-- The lexemes of a text make it up. -/
theorem flatMap_text_of_scan {text : List ℕ} {xs : List Lexeme} (h : scan text = some xs) :
    xs.flatMap Lexeme.text = text := by
  have hfuel : ∀ (fuel : ℕ) {text xs}, scanner.scanFuel fuel text = some xs →
      xs.flatMap Lexeme.text = text := by
    intro fuel text xs h
    induction fuel generalizing text xs with
    | zero =>
      simp only [Scanner.scanFuel] at h
      split at h
      · cases h
        exact (isEmpty_iff.1 ‹_›).symm
      · cases h
    | succ fuel ih =>
      simp only [Scanner.scanFuel] at h
      split at h
      · cases h
        exact (isEmpty_iff.1 ‹_›).symm
      · obtain ⟨⟨x, rest⟩, hnext, h⟩ := bind_eq_some_iff.1 h
        obtain ⟨xs, hxs, rfl⟩ := Option.map_eq_some_iff.1 h
        rw [flatMap_cons, ih hxs]
        exact (text_of_next hnext).2
  exact hfuel _ h

end PgScan

end Wamn.Lib
