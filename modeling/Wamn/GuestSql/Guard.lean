import Wamn.Lib.TextForm

/-!
# The guard on guest SQL

A statement of a guest is searched, as a text, for what a guest may not do. Two of the searches run
on two normal forms of the text.
-/

namespace Wamn.GuestSql

open List Lib Lib.TextForm
open Lib.Text (isWhiteSpace)

/-! ## Texts -/

variable (sql : String) (text : List Char)

def lower : List Char :=
  sql.toList.map Char.toLower

def contains (pattern : String) (text : List Char) : Bool :=
  text.tails.any fun rest => pattern.toList.isPrefixOf rest

lemma contains_iff {pattern : String} {text : List Char} :
    contains pattern text = true ↔ pattern.toList <:+: text := by
  simp only [contains, any_eq_true, mem_tails, isPrefixOf_iff_prefix]
  constructor
  · rintro ⟨rest, hsuffix, hplain⟩
    exact hplain.isInfix.trans hsuffix.isInfix
  · rintro ⟨before, after, rfl⟩
    exact ⟨pattern.toList ++ after, ⟨before, by simp⟩, prefix_append _ _⟩

/-! ## Normal forms -/

/-- Whether the loop is outside of comments, in a line comment, or in a block comment. -/
inductive Within where
  | code
  | line
  | block
  deriving DecidableEq

/-- `uncommented` in `normalized_sql`: a space for each comment, which ends before a newline or
behind `*/`. -/
def uncommented : Within → List Char → List Char
  | _, [] => []
  | .code, [c] => [c]
  | .code, c :: d :: r =>
    if c = '-' ∧ d = '-' then ' ' :: uncommented .line r
    else if c = '/' ∧ d = '*' then ' ' :: uncommented .block r
    else c :: uncommented .code (d :: r)
  | .line, c :: r => if c = '\n' then c :: uncommented .code r else uncommented .line r
  | .block, [_] => []
  | .block, c :: d :: r =>
    if c = '*' ∧ d = '/' then uncommented .code r else uncommented .block (d :: r)

/-- `marked` in `normalized_sql`: each mark of a comment replaced by a space. -/
def marked : List Char :=
  replacePair '*' '/' ' ' (replacePair '/' '*' ' ' (replacePair '-' '-' ' ' text))

/-- The two texts that `normalized_sql` normalises. -/
def variants : List (List Char) :=
  [uncommented .code (lower sql), marked (lower sql)]

/-- The text without double quotes, its words joined by one space, no space around a dot. -/
def normalForm : List Char :=
  form isWhiteSpace ' ' '.' (text.filter (· ≠ '"'))

def normalizedSql : List (List Char) :=
  (variants sql).map normalForm

/-! ## What a guest may not do -/

def trimStart : List Char :=
  text.dropWhile isWhiteSpace

/-- The rest of a text behind the first occurrence of a pattern. -/
def findRest (pattern : List Char) : List Char → Option (List Char)
  | [] => none
  | c :: r =>
    if pattern.isPrefixOf (c :: r) then some ((c :: r).drop pattern.length) else findRest pattern r

def stripLoop : ℕ → List Char → List Char
  | 0, text => text
  | fuel + 1, text =>
    match text with
    | '-' :: '-' :: r =>
      match findRest ['\n'] r with
      | some rest => stripLoop fuel (trimStart rest)
      | none => []
    | '/' :: '*' :: r =>
      match findRest ['*', '/'] r with
      | some rest => stripLoop fuel (trimStart rest)
      | none => text
    | text => text

/-- `strip_leading_noise`. Every round takes a character. -/
def stripLeadingNoise : List Char :=
  stripLoop text.length (trimStart text)

def startsWithKeyword (head : List Char) (keyword : String) : Bool :=
  keyword.toList.isPrefixOf head &&
    match head.drop keyword.length with
    | [] => true
    | c :: _ => isWhiteSpace c

def statementMutatesSession : Bool :=
  let head := stripLeadingNoise (lower sql)
  startsWithKeyword head "set" || startsWithKeyword head "reset" ||
    contains "set_config" (lower sql)

def statementForgesCausation : Bool :=
  contains "pg_logical_emit_message" (lower sql) && contains "wamn." (lower sql)

def counterFunctions : List String :=
  ["bump_counter", "assign_counter", "set_counter"]

/-- The closure `identifier` of `statement_calls_counter_function`. -/
def identifier (c : Char) : Bool :=
  c.isAlphanum || c = '_' || c = '$'

/-- A name stands in a text as a whole identifier. No counter function overlaps itself, so this is
`match_indices`. -/
def namedIn (name : List Char) (before : Option Char) : List Char → Bool
  | [] => false
  | c :: r =>
    (name.isPrefixOf (c :: r) && !before.any identifier &&
        !((c :: r).drop name.length).head?.any identifier) ||
      namedIn name (some c) r

def statementCallsCounterFunction : Bool :=
  (normalizedSql sql).any fun text =>
    counterFunctions.any fun function => namedIn function.toList none text

/-- The words of the phrases `WRITES`. -/
def writes : List (List String) :=
  [["insert", "into", "platform"], ["update", "platform"], ["update", "only", "platform"],
    ["delete", "from", "platform"], ["delete", "from", "only", "platform"],
    ["merge", "into", "platform"], ["merge", "into", "only", "platform"],
    ["truncate", "platform"], ["truncate", "only", "platform"], ["truncate", "table", "platform"],
    ["truncate", "table", "only", "platform"], ["copy", "platform"]]

def phrase (words : List String) : String :=
  " ".intercalate words ++ "."

example : (writes.map phrase).take 3 =
    ["insert into platform.", "update platform.", "update only platform."] := by
  decide +kernel

def statementWritesPlatform : Bool :=
  (normalizedSql sql).any fun text => writes.any fun words => contains (phrase words) text

/-- The error of a statement that is refused: its SQLSTATE and its message. -/
structure PgError where
  code : String
  message : String
  deriving DecidableEq

def refusal (message : String) : Except PgError Unit :=
  .error ⟨"WAMN0", message⟩

def rejectClaimMutation : Except PgError Unit :=
  if statementMutatesSession sql then refusal "in-band claim or role mutation is not permitted"
  else if statementForgesCausation sql then
    refusal "emitting a wamn.* logical message is not permitted"
  else if statementCallsCounterFunction sql then
    refusal "calling a platform counter function is not permitted"
  else if statementWritesPlatform sql then refusal "writing a platform.* relation is not permitted"
  else .ok ()

def Refused : Prop :=
  ∃ e, rejectClaimMutation sql = .error e

lemma refused_of_statementWritesPlatform {sql : String} (h : statementWritesPlatform sql = true) :
    Refused sql := by
  rw [Refused, rejectClaimMutation, if_pos h]
  split_ifs
  all_goals exact ⟨_, rfl⟩

/-! ## Phrases that a text spells -/

/-- A text spells one of the phrases, up to double quotes. -/
def SpellsWrite : Prop :=
  ∃ words ∈ writes, Spells isWhiteSpace '.' (words.map String.toList) (text.filter (· ≠ '"'))

/-- A part of one of the two texts spells one of the phrases. -/
def Spelled : Prop :=
  ∃ text ∈ variants sql, ∃ part, part <:+: text ∧ SpellsWrite part

lemma isLower_of_mem_writes :
    ∀ words ∈ writes, words ≠ [] ∧ ∀ word ∈ words, word.toList ≠ [] ∧
      ∀ c ∈ word.toList, c.isLower = true := by
  decide +kernel

lemma not_isWhiteSpace_of_isLower {c : Char} (h : c.isLower = true) : isWhiteSpace c = false := by
  have hlow : 97 ≤ c.toNat := of_decide_eq_true (Bool.and_eq_true_iff.1 h).1
  have hhigh : c.toNat ≤ 122 := of_decide_eq_true (Bool.and_eq_true_iff.1 h).2
  simp only [isWhiteSpace, Bool.or_eq_false_iff, Bool.and_eq_false_iff, decide_eq_false_iff_not]
  omega

lemma plain_of_mem_writes {words : List String} (h : words ∈ writes) :
    ∀ word ∈ words.map String.toList, Plain isWhiteSpace '.' word := by
  intro w hw
  obtain ⟨word, hword, rfl⟩ := mem_map.1 hw
  obtain ⟨hne, hlower⟩ := (isLower_of_mem_writes words h).2 word hword
  exact ⟨hne, fun c hc => not_isWhiteSpace_of_isLower (hlower c hc), fun hc => by
    simpa using hlower '.' hc⟩

lemma toList_phrase (words : List String) :
    (phrase words).toList = List.intercalate [' '] (words.map String.toList) ++ ['.'] := by
  rw [phrase, String.toList_append, String.toList_intercalate]
  rfl

lemma isInfix_filter_iff {α : Type} {q : α → Bool} {part text : List α} :
    part <:+: text.filter q ↔ ∃ whole, whole <:+: text ∧ whole.filter q = part := by
  constructor
  · rintro ⟨l, r, h⟩
    obtain ⟨lw, r', rfl, hlw, -⟩ := filter_eq_append_iff.1 h.symm
    obtain ⟨l', whole, rfl, -, rfl⟩ := filter_eq_append_iff.1 hlw
    exact ⟨whole, ⟨l', r', rfl⟩, rfl⟩
  · rintro ⟨whole, h, rfl⟩
    exact h.filter q

/-- The guard sees a write iff the text spells one. -/
theorem statementWritesPlatform_eq_true_iff {sql : String} :
    statementWritesPlatform sql = true ↔ Spelled sql := by
  simp only [statementWritesPlatform, normalizedSql, any_eq_true, mem_map, contains_iff,
    exists_exists_and_eq_and, toList_phrase, Spelled, SpellsWrite]
  refine exists_congr fun text => and_congr_right fun _ => ?_
  have hphrase : ∀ words ∈ writes,
      (List.intercalate [' '] (words.map String.toList) ++ ['.'] <:+: normalForm text ↔
        ∃ part, part <:+: text ∧
          Spells isWhiteSpace '.' (words.map String.toList) (part.filter (· ≠ '"'))) := by
    intro words hwords
    obtain ⟨word, rest, rfl⟩ :=
      exists_cons_of_ne_nil (isLower_of_mem_writes words hwords).1
    rw [normalForm, map_cons, isInfix_form_iff (by decide) (by decide)
      (by simpa using plain_of_mem_writes hwords)]
    constructor
    · rintro ⟨m, hm, hspells⟩
      obtain ⟨part, hpart, rfl⟩ := isInfix_filter_iff.1 hm
      exact ⟨part, hpart, hspells⟩
    · rintro ⟨part, hpart, hspells⟩
      exact ⟨_, isInfix_filter_iff.2 ⟨part, hpart, rfl⟩, hspells⟩
  constructor
  · rintro ⟨words, hwords, hfound⟩
    obtain ⟨part, hpart, hspells⟩ := (hphrase words hwords).1 hfound
    exact ⟨part, hpart, words, hwords, hspells⟩
  · rintro ⟨part, hpart, words, hwords, hspells⟩
    exact ⟨words, hwords, (hphrase words hwords).2 ⟨part, hpart, hspells⟩⟩

end Wamn.GuestSql
