import Wamn.GuestSql.Guard
import Wamn.Lib.PgScan

/-!
# Writes of platform relations

PostgreSQL reads tokens, and a write of a relation of the schema `platform` is a sequence of tokens.
The guard searches the text and does not see every write.
-/

namespace Wamn.GuestSql

open Lib Lib.PgScan Lib.TextForm List
open Lib.Text (isWhiteSpace)

/-! ## Tokens -/

def bytes (text : List Char) : List ℕ :=
  (Text.utf8 text).map UInt8.toNat

def ascii (text : String) : List ℕ :=
  text.toList.map Char.toNat

def lowerByte (b : ℕ) : ℕ :=
  if 65 ≤ b ∧ b ≤ 90 then b + 32 else b

/-- What the grammar is given for a lexeme. A keyword is a word like an unquoted name. -/
inductive Token where
  /-- In lower case. -/
  | word (name : List ℕ)
  /-- A quoted name. -/
  | name (name : List ℕ)
  | symbol (text : List ℕ)
  | other
  deriving DecidableEq

def hexDigitValue (b : ℕ) : ℕ :=
  if b ≤ 57 then b - 48 else lowerByte b - 87

/-- The number that the first `n` bytes write in hexadecimal, and the rest. -/
def hexCode (n : ℕ) (text : List ℕ) : Option (ℕ × List ℕ) :=
  if n ≤ text.length ∧ (text.take n).all isHex then
    some ((text.take n).foldl (fun code b => 16 * code + hexDigitValue b) 0, text.drop n)
  else none

/-- The name with Unicode escapes, as code points for escaped characters and bytes for others. -/
def unescape (escape : ℕ) : ℕ → List ℕ → Option (List ℕ)
  | _, [] => some []
  | 0, _ :: _ => none
  | fuel + 1, a :: r =>
    if a ≠ escape then (unescape escape fuel r).map (a :: ·)
    else
      match r with
      | [] => none
      | b :: r' =>
        if b = escape then (unescape escape fuel r').map (escape :: ·)
        else
          -- `\+XXXXXX` or `\XXXX`
          (if b = 43 then hexCode 6 r' else hexCode 4 r).bind fun (code, rest) =>
            (unescape escape fuel rest).map (code :: ·)

/-- The token of a quoted name with Unicode escapes. -/
def escapedName (escape : ℕ) (name : List ℕ) : Token :=
  match unescape escape name.length name with
  | some name => .name name
  | none => .other

def token (x : Lexeme) : Token :=
  match x.kind with
  | .word => .word (x.text.map lowerByte)
  | .quotedName name => .name name
  | .unicodeName name => escapedName 92 name
  | .symbol => .symbol x.text
  | _ => .other

def significant (x : Lexeme) : Bool :=
  match x.kind with
  | .space | .lineComment | .blockComment => false
  | _ => true

/-- The tokens of lexemes. A name with Unicode escapes can have its escape character behind it. -/
def tokens : List Lexeme → List Token
  | x :: y :: z :: r =>
    match x.kind, token y, z.text with
    | .unicodeName name, .word word, [39, escape, 39] =>
      if word = ascii "uescape" then escapedName escape name :: tokens r
      else token x :: tokens (y :: z :: r)
    | _, _, _ => token x :: tokens (y :: z :: r)
  | [x, y] => [token x, token y]
  | [x] => [token x]
  | [] => []

/-! ## Writes -/

def Token.is (keyword : String) (t : Token) : Bool :=
  t = .word (ascii keyword)

def skip (keyword : String) : List Token → List Token
  | [] => []
  | t :: r => if t.is keyword then r else t :: r

def qualifiedName : List Token → Option (List (List ℕ) × List Token)
  | [] => none
  | .word name :: .symbol [46] :: r | .name name :: .symbol [46] :: r =>
    (qualifiedName r).map fun (names, rest) => (name :: names, rest)
  | .word name :: r | .name name :: r => some ([name], r)
  | _ :: _ => none

/-- A relation as the target of a statement, with or without `ONLY`, and the rest. -/
def relation (ts : List Token) : Option (List (List ℕ) × List Token) :=
  match ts with
  | [] => none
  | t :: r =>
    if t.is "only" then
      match r with
      | .symbol [40] :: r' =>
        (qualifiedName r').bind fun (names, rest) =>
          if rest.head? = some (.symbol [41]) then some (names, rest.tail) else none
      | _ => qualifiedName r
    else
      (qualifiedName ts).map fun (names, rest) =>
        (names, if rest.head? = some (.symbol [42]) then rest.tail else rest)

/-- A relation qualified by the schema `platform`. -/
def inPlatform (names : List (List ℕ)) : Bool :=
  match names.reverse with
  | _ :: schema :: _ => schema = ascii "platform"
  | _ => false

/-- One of the targets of a list is a relation of `platform`. -/
def listed : ℕ → List Token → Bool
  | 0, _ => false
  | fuel + 1, ts =>
    (relation ts).any fun (names, rest) =>
      inPlatform names ||
        match rest with
        | .symbol [44] :: r => listed fuel r
        | _ => false

/-- The tokens begin with a write of a relation of `platform`. -/
def writeAt (ts : List Token) : Bool :=
  match ts with
  | [] => false
  | t :: r =>
    if t.is "insert" then
      match r with
      | into :: r' => into.is "into" && (qualifiedName r').any fun (names, _) => inPlatform names
      | [] => false
    else if t.is "update" then (relation r).any fun (names, _) => inPlatform names
    else if t.is "delete" then
      match r with
      | source :: r' => source.is "from" && (relation r').any fun (names, _) => inPlatform names
      | [] => false
    else if t.is "merge" then
      match r with
      | into :: r' => into.is "into" && (relation r').any fun (names, _) => inPlatform names
      | [] => false
    else if t.is "truncate" then listed r.length (skip "table" r)
    else if t.is "copy" then
      (qualifiedName (skip "binary" r)).any fun (names, _) => inPlatform names
    else false

/-- The statement of these lexemes writes a relation of `platform`. -/
def writesPlatform (xs : List Lexeme) : Bool :=
  (tokens (xs.filter significant)).tails.any writeAt

/-- The text has a write of a relation of `platform`. -/
def PlatformWrite (sql : String) : Prop :=
  (PgScan.scan (bytes sql.toList)).any writesPlatform = true

instance (sql : String) : Decidable (PlatformWrite sql) :=
  inferInstanceAs (Decidable (_ = true))

/-! ## What the guard sees -/

/-- A write of a relation of `platform` is seen as such and refused. -/
def Guarded (sql : String) : Prop :=
  PlatformWrite sql → statementWritesPlatform sql = true ∧ Refused sql

/-- A write is seen and refused exactly if the text spells one of the phrases. -/
theorem guarded_iff (sql : String) : Guarded sql ↔ (PlatformWrite sql → Spelled sql) := by
  refine imp_congr_right fun _ => ?_
  rw [← statementWritesPlatform_eq_true_iff]
  exact and_iff_left_of_imp refused_of_statementWritesPlatform

/-! ## Plain writes -/

section Plain

variable {part : List ℕ} {text : List Char} (hascii : ∀ b ∈ part, b < 128)

lemma bytes_cons (c : Char) :
    bytes (c :: text) = (String.utf8EncodeChar c).map UInt8.toNat ++ bytes text := by
  simp [bytes, Text.utf8]

/-- A character is one byte of ASCII, or the first of its bytes and all others are none. -/
theorem utf8EncodeChar_cases (c : Char) :
    (String.utf8EncodeChar c).map UInt8.toNat = [c.toNat] ∨ ∃ b rest,
      (String.utf8EncodeChar c).map UInt8.toNat = b :: rest ∧ ∀ d ∈ b :: rest, 128 ≤ d := by
  unfold String.utf8EncodeChar
  dsimp only
  rw [Char.toNat_val]
  split_ifs
  · left
    simp only [map_cons, map_nil, UInt8.toNat_ofNat', cons.injEq, and_true]
    omega
  all_goals
    right
    refine ⟨_, _, rfl, ?_⟩
    simp [UInt8.toNat_ofNat']
    omega

include hascii

lemma isPrefix_of_bytes (h : part <+: bytes text) : part.map Char.ofNat <+: text := by
  induction part generalizing text with
  | nil => exact nil_prefix
  | cons b part ih =>
    obtain ⟨hb, hpart⟩ := forall_mem_cons.1 hascii
    cases text with
    | nil => simp [bytes, Text.utf8] at h
    | cons c text =>
      rw [bytes_cons] at h
      rcases utf8EncodeChar_cases c with hone | ⟨d, rest, hmany, hhigh⟩
      · rw [hone] at h
        obtain ⟨rfl, htail⟩ := cons_prefix_cons.1 h
        rw [map_cons, Char.ofNat_toNat]
        exact cons_prefix_cons.2 ⟨rfl, ih hpart htail⟩
      · rw [hmany] at h
        have hd := hhigh d mem_cons_self
        have heq := (cons_prefix_cons.1 h).1
        omega

lemma isInfix_of_high {high rest : List ℕ} (hhigh : ∀ b ∈ high, 128 ≤ b)
    (h : part <:+: high ++ rest) : part <:+: rest := by
  induction high with
  | nil => exact h
  | cons b high ih =>
    obtain ⟨hb, hhigh⟩ := forall_mem_cons.1 hhigh
    rcases infix_cons_iff.1 h with h | h
    · cases part with
      | nil => exact nil_infix
      | cons d part =>
        have hd := hascii d mem_cons_self
        have heq := (cons_prefix_cons.1 h).1
        omega
    · exact ih hhigh h

/-- ASCII bytes of a text are characters of it. -/
theorem isInfix_of_bytes (h : part <:+: bytes text) : part.map Char.ofNat <:+: text := by
  induction text with
  | nil =>
    obtain rfl : part = [] := by simpa [bytes, Text.utf8] using h
    exact nil_infix
  | cons c text ih =>
    rw [bytes_cons] at h
    rcases utf8EncodeChar_cases c with hone | ⟨d, rest, hmany, hhigh⟩
    · rw [hone] at h
      rcases infix_cons_iff.1 h with hpre | htail
      · have hbytes : part <+: bytes (c :: text) := by rwa [bytes_cons, hone]
        exact (isPrefix_of_bytes hascii hbytes).isInfix
      · exact infix_cons (ih htail)
    · rw [hmany] at h
      exact infix_cons (ih (isInfix_of_high hascii hhigh h))

end Plain

/-- Bytes of ASCII that are these characters in lower case. -/
def Lowers (part : List ℕ) (text : List Char) : Prop :=
  (∀ b ∈ part, b < 128) ∧ part.map (fun b => (Char.ofNat b).toLower) = text

lemma Lowers.append {part part' : List ℕ} {text text' : List Char} (h : Lowers part text)
    (h' : Lowers part' text') : Lowers (part ++ part') (text ++ text') :=
  ⟨forall_mem_append.2 ⟨h.1, h'.1⟩, by rw [map_append, h.2, h'.2]⟩

lemma lowers_of_token {word : String} {x : Lexeme} (hx : token x = .word (ascii word))
    (hword : ∀ c ∈ word.toList, c.isLower = true) : Lowers x.text word.toList := by
  have htext : x.text.map lowerByte = ascii word := by
    unfold token escapedName at hx
    split at hx
    · exact Token.word.inj hx
    · cases hx
    · split at hx <;> cases hx
    · cases hx
    · cases hx
  have hascii : ∀ b ∈ x.text, b < 128 := by
    intro b hb
    obtain ⟨c, hc, hlower⟩ := mem_map.1 (htext ▸ mem_map_of_mem hb)
    have hhigh : c.toNat ≤ 122 := of_decide_eq_true (Bool.and_eq_true_iff.1 (hword c hc)).2
    unfold lowerByte at hlower
    split at hlower <;> omega
  have hlower : ∀ b < 128, (Char.ofNat b).toLower = Char.ofNat (lowerByte b) := by decide
  refine ⟨hascii, ?_⟩
  calc x.text.map (fun b => (Char.ofNat b).toLower)
      = (x.text.map lowerByte).map Char.ofNat := by
        rw [map_map]
        exact map_congr_left fun b hb => hlower b (hascii b hb)
    _ = word.toList.map fun c => Char.ofNat c.toNat := by
        rw [htext, ascii, map_map]
        rfl
    _ = word.toList := by simp

lemma lowers_of_isSpace {gap : List ℕ} (h : ∀ b ∈ gap, isSpace b = true) :
    ∃ text, Lowers gap text ∧ (text = [] → gap = []) ∧ ∀ c ∈ text, isWhiteSpace c = true := by
  have hspace : ∀ b, isSpace b = true → b < 128 := by
    intro b hb
    simp only [isSpace, Bool.or_eq_true, beq_iff_eq, Bool.and_eq_true, decide_eq_true_eq] at hb
    omega
  have hwhite : ∀ b < 128, isSpace b = true → isWhiteSpace (Char.ofNat b).toLower = true := by
    decide
  refine ⟨_, ⟨fun b hb => hspace b (h b hb), rfl⟩, map_eq_nil_iff.1, fun c hc => ?_⟩
  obtain ⟨b, hb, rfl⟩ := mem_map.1 hc
  exact hwhite b (hspace b (h b hb)) (h b hb)

/-- A lexeme with whitespace behind it. -/
def spaced (x : Lexeme) (gap : List ℕ) : List Lexeme := x :: gap.map fun b => ⟨.space, [b]⟩

/-- Lexemes that write words with whitespace between them, and a dot behind the last. -/
inductive Plainly : List String → List Lexeme → Prop
  | last {word : String} {x : Lexeme} {gap : List ℕ} (hx : token x = .word (ascii word))
      (hgap : ∀ b ∈ gap, isSpace b = true) : Plainly [word] (spaced x gap ++ [⟨.symbol, [46]⟩])
  | cons {word : String} {words : List String} {x : Lexeme} {gap : List ℕ} {xs : List Lexeme}
      (hx : token x = .word (ascii word)) (hgap : ∀ b ∈ gap, isSpace b = true) (hne : gap ≠ [])
      (hxs : Plainly words xs) : Plainly (word :: words) (spaced x gap ++ xs)

lemma Plainly.spells {words : List String} {xs : List Lexeme} (h : Plainly words xs)
    (hwords : ∀ word ∈ words, ∀ c ∈ word.toList, c.isLower = true) :
    ∃ text, Lowers (xs.flatMap Lexeme.text) text ∧
      Spells isWhiteSpace '.' (words.map String.toList) text := by
  have hspaced : ∀ x gap xs, (spaced x gap ++ xs).flatMap Lexeme.text =
      x.text ++ gap ++ xs.flatMap Lexeme.text := by
    intro x gap xs
    rw [flatMap_append, spaced, flatMap_cons, flatMap_map]
    exact congrArg (x.text ++ · ++ _) (flatMap_singleton' gap)
  induction h with
  | last hx hgap =>
    obtain ⟨text, htext, -, hwhite⟩ := lowers_of_isSpace hgap
    have hword := lowers_of_token hx (hwords _ mem_cons_self)
    rw [hspaced]
    exact ⟨_, (hword.append htext).append ⟨by simp, rfl⟩, .last _ hwhite⟩
  | cons hx hgap hne _ ih =>
    obtain ⟨hword, hwords⟩ := forall_mem_cons.1 hwords
    obtain ⟨text, htext, hnil, hwhite⟩ := lowers_of_isSpace hgap
    obtain ⟨rest, hrest, hspells⟩ := ih hwords
    rw [hspaced]
    exact ⟨_, ((lowers_of_token hx hword).append htext).append hrest,
      .cons _ (fun h => hne (hnil h)) hwhite hspells⟩

/-- A write that is read word by word, with only whitespace between, is seen and refused. -/
theorem refused_of_plainly {sql : String} {before xs after : List Lexeme} {words : List String}
    (hscan : PgScan.scan (bytes sql.toList) = some (before ++ xs ++ after))
    (hwords : words ∈ writes) (hxs : Plainly words xs) :
    statementWritesPlatform sql = true ∧ Refused sql := by
  have hlower : ∀ word ∈ words, ∀ c ∈ word.toList, c.isLower = true := fun word hword =>
    ((isLower_of_mem_writes words hwords).2 word hword).2
  obtain ⟨text, ⟨hascii, htext⟩, hspells⟩ := hxs.spells hlower
  have hinfix : text <:+: lower sql := by
    have hbytes : xs.flatMap Lexeme.text <:+: bytes sql.toList := by
      rw [← flatMap_text_of_scan hscan, flatMap_append, flatMap_append]
      exact ⟨_, _, rfl⟩
    have hchars := (isInfix_of_bytes hascii hbytes).map Char.toLower
    rw [map_map] at hchars
    exact htext ▸ hchars
  -- The part has no mark of a comment and no quote in it, so the second form keeps it.
  have hplain : ∀ d ∈ ['-', '/', '*', '"'], d ∉ text := by
    have hchars : ∀ c ∈ text, c.isLower = true ∨ isWhiteSpace c = true ∨ c = '.' := by
      refine hspells.forall_mem ?_ (fun c hc => .inr (.inl hc)) (.inr (.inr rfl))
      intro w hw c hc
      obtain ⟨word, hword, rfl⟩ := mem_map.1 hw
      exact .inl (hlower word hword c hc)
    have hnone : ∀ d ∈ ['-', '/', '*', '"'],
        ¬(d.isLower = true ∨ isWhiteSpace d = true ∨ d = '.') := by decide
    exact fun d hd hmem => hnone d hd (hchars d hmem)
  have hmarked : text <:+: marked (lower sql) :=
    isInfix_replacePair (isInfix_replacePair (isInfix_replacePair hinfix
      (hplain _ (by simp)) (hplain _ (by simp))) (hplain _ (by simp)) (hplain _ (by simp)))
      (hplain _ (by simp)) (hplain _ (by simp))
  have hspelled : Spelled sql := by
    refine ⟨marked (lower sql), by simp [variants], _, hmarked, words, hwords, ?_⟩
    rwa [filter_eq_self.2]
    exact fun c hc => decide_eq_true fun heq => hplain '"' (by simp) (heq ▸ hc)
  have hwrites := statementWritesPlatform_eq_true_iff.2 hspelled
  exact ⟨hwrites, refused_of_statementWritesPlatform hwrites⟩

/-- The second target of a list is not seen. -/
theorem second_target_is_not_guarded :
    ¬ ∀ sql, Guarded sql := by
  intro h
  have hwrite : PlatformWrite "TRUNCATE app.setting, platform.setting" := by decide +kernel
  have hunseen : statementWritesPlatform "TRUNCATE app.setting, platform.setting" = false := by
    decide +kernel
  exact absurd (h _ hwrite).1 (by simp [hunseen])

-- Neither is a quoted name right behind its keyword, or one behind a nested comment.
example : PlatformWrite "UPDATE\"platform\".t SET a = 1" ∧
    statementWritesPlatform "UPDATE\"platform\".t SET a = 1" = false := by
  decide +kernel

example : PlatformWrite "UPDATE /* a /* b */ */ platform.t SET a = 1" ∧
    statementWritesPlatform "UPDATE /* a /* b */ */ platform.t SET a = 1" = false := by
  decide +kernel

end Wamn.GuestSql
