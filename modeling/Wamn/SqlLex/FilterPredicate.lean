import Wamn.Lib.PgScan

/-!
# Filter predicates of a package's SQL

The catalog reads the SQL of a package as tokens: names, in lower case unless quoted, and single
bytes; whitespace, comments, string constants and dollar quotes give none. The match mode of a
filter is read off the innermost parentheses around all references to its parameter.
-/

namespace Wamn.SqlLex

open List

open Lib.PgScan (headIs isDigit cut decimal)

/-! ## Tokens

A text is the list of its bytes, and what follows the cursor is the rest of that list. What is not
ended goes on to the end of the text. -/

inductive Token where
  | identifier (name : String)
  | dot
  | leftParen
  | rightParen
  | comma
  | equals
  | star
  | parameter (index : ℕ)
  | other (byte : ℕ)
  deriving DecidableEq

/-- Space, tab, newline, form feed, carriage return: not the vertical tab. -/
def isAsciiWhitespace (b : ℕ) : Bool :=
  b == 32 || b == 9 || b == 10 || b == 12 || b == 13

def isAsciiAlphabetic (b : ℕ) : Bool :=
  (decide (65 ≤ b) && decide (b ≤ 90)) || (decide (97 ≤ b) && decide (b ≤ 122))

def identifierStart (b : ℕ) : Bool := isAsciiAlphabetic b || b == 95

def identifierContinue (b : ℕ) : Bool := identifierStart b || isDigit b || b == 36

/-- The text of some bytes, each one a character. -/
def text (bytes : List ℕ) : String := String.ofList (bytes.map Char.ofNat)

def toAsciiLowercase (b : ℕ) : ℕ := if 65 ≤ b ∧ b ≤ 90 then b + 32 else b

/-- The token of a byte that begins nothing else. -/
def byteToken (b : ℕ) : Token :=
  if b = 46 then .dot
  else if b = 40 then .leftParen
  else if b = 41 then .rightParen
  else if b = 44 then .comma
  else if b = 61 then .equals
  else if b = 42 then .star
  else .other b

def skipLineComment (r : List ℕ) : List ℕ := r.dropWhile fun b => !(b == 10 || b == 13)

/-- `skip_block_comment`, at a depth. -/
def skipBlockComment : ℕ → List ℕ → List ℕ
  | 0, r => r
  | _ + 1, [] => []
  | _ + 1, [_] => []
  | depth + 1, a :: b :: r =>
    if a = 47 ∧ b = 42 then skipBlockComment (depth + 2) r
    else if a = 42 ∧ b = 47 then skipBlockComment depth r
    else skipBlockComment (depth + 1) (b :: r)

def skipQuoted (quote : ℕ) : List ℕ → List ℕ
  | [] => []
  | [_] => []
  | a :: b :: r =>
    if a ≠ quote then skipQuoted quote (b :: r)
    else if b = quote then skipQuoted quote r
    else b :: r

/-- The characters of the name, and the rest. -/
def quotedIdentifier : List ℕ → List ℕ × List ℕ
  | [] => ([], [])
  | [a] => if a ≠ 34 then ([a], []) else ([], [])
  | a :: b :: r =>
    if a ≠ 34 then
      let (name, rest) := quotedIdentifier (b :: r)
      (a :: name, rest)
    else if b = 34 then
      let (name, rest) := quotedIdentifier r
      (34 :: name, rest)
    else ([], b :: r)

/-- The rest behind the second dollar. -/
def dollarQuoteEnd (r : List ℕ) : Option (List ℕ) :=
  match r.dropWhile fun b => identifierStart b || isDigit b with
  | [] => none
  | c :: rest => if c = 36 then some rest else none

/-- The rest behind the delimiter, or where it would not fit anymore. -/
def seek (delimiter : List ℕ) : List ℕ → List ℕ
  | [] => []
  | a :: r =>
    if (a :: r).length < delimiter.length then a :: r
    else if delimiter.isPrefixOf (a :: r) then (a :: r).drop delimiter.length
    else seek delimiter r

/-- `skip_dollar_quote`, which is called where there is a delimiter. -/
def skipDollarQuote (r : List ℕ) : List ℕ :=
  match dollarQuoteEnd r with
  | some body => seek (cut (36 :: r) body) body
  | none => r

/-- `parse` of digits as a `u32`, and the maximum where it fails. -/
def parseIndex (digits : List ℕ) : ℕ :=
  if decimal digits < 2 ^ 32 then decimal digits else 2 ^ 32 - 1

/-- One round of `positioned_tokens`, at the byte `a` before `r`: the token, if any, and the
rest. -/
def nextToken (a : ℕ) (r : List ℕ) : Option Token × List ℕ :=
  if isAsciiWhitespace a then (none, r)
  else if a = 45 ∧ headIs (· == 45) r then (none, skipLineComment r.tail)
  else if a = 47 ∧ headIs (· == 42) r then (none, skipBlockComment 1 r.tail)
  else if a = 39 then (none, skipQuoted 39 r)
  else if a = 34 then
    (some (.identifier (text (quotedIdentifier r).1)), (quotedIdentifier r).2)
  else if a = 36 ∧ headIs isDigit r then
    (some (.parameter (parseIndex (r.takeWhile isDigit))), r.dropWhile isDigit)
  else if a = 36 ∧ (dollarQuoteEnd r).isSome then (none, skipDollarQuote r)
  else if identifierStart a then
    (some (.identifier (text ((a :: r.takeWhile identifierContinue).map toAsciiLowercase))),
      r.dropWhile identifierContinue)
  else (some (byteToken a), r)

/-- The loop of `positioned_tokens` at an offset. Every round takes a byte. -/
def tokenLoop : ℕ → ℕ → List ℕ → List (ℕ × Token)
  | 0, _, _ => []
  | _ + 1, _, [] => []
  | fuel + 1, start, a :: r =>
    ((nextToken a r).1.map (start, ·)).toList ++
      tokenLoop fuel (start + (cut (a :: r) (nextToken a r).2).length) (nextToken a r).2

def positionedTokens (sql : List ℕ) : List (ℕ × Token) := tokenLoop sql.length 0 sql

def tokens (sql : List ℕ) : List Token := (positionedTokens sql).map Prod.snd

/-! ## The enclosing group -/

/-- The parenthesis that is open before a position, given the tokens before it in reverse. -/
def findOpen : ℕ → List Token → Option ℕ
  | _, [] => none
  | depth, .rightParen :: before => findOpen (depth + 1) before
  | 0, .leftParen :: before => some before.length
  | depth + 1, .leftParen :: before => findOpen depth before
  | depth, _ :: before => findOpen depth before

/-- The search for the parenthesis that closes a group, from an index on. -/
def findClose : ℕ → ℕ → List Token → Option ℕ
  | _, _, [] => none
  | depth, index, .leftParen :: rest => findClose (depth + 1) (index + 1) rest
  | 0, index, .rightParen :: _ => some index
  | depth + 1, index, .rightParen :: rest => findClose depth (index + 1) rest
  | depth, index, _ :: rest => findClose depth (index + 1) rest

lemma findOpen_lt {depth n : ℕ} {before : List Token} (h : findOpen depth before = some n) :
    n < before.length := by
  fun_induction findOpen depth before with
  | case1 => cases h
  | case2 depth before ih => exact Nat.lt_succ_of_lt (ih h)
  | case3 before => exact Option.some.inj h ▸ Nat.lt_succ_self _
  | case4 depth before ih | case5 depth t before _ _ _ ih => exact Nat.lt_succ_of_lt (ih h)

/-- `enclosing_group`. The loop goes on outwards from the parenthesis that it found. -/
def enclosingGroup (tokens : List Token) (first last : ℕ) : ℕ × ℕ :=
  match h : findOpen 0 (tokens.take first).reverse with
  | none => (0, tokens.length)
  | some start =>
    let close := (findClose 0 (start + 1) (tokens.drop (start + 1))).getD tokens.length
    if last < close then (start + 1, close) else enclosingGroup tokens start last
termination_by first
decreasing_by
  have := findOpen_lt h
  simp only [length_reverse, length_take] at this
  omega

/-! ## Balanced tokens -/

inductive Balanced : List Token → Prop where
  | nil : Balanced []
  | token {t l} : t ≠ .leftParen → t ≠ .rightParen → Balanced l → Balanced (t :: l)
  | group {l m} : Balanced l → Balanced m → Balanced (.leftParen :: (l ++ .rightParen :: m))

section Balanced

variable {l m : List Token}

lemma Balanced.append (hl : Balanced l) (hm : Balanced m) : Balanced (l ++ m) := by
  induction hl with
  | nil => exact hm
  | token hleft hright _ ih => exact .token hleft hright ih
  | group hl _ _ ih =>
    rw [cons_append, append_assoc, cons_append]
    exact .group hl ih

lemma Balanced.findClose (h : Balanced l) (depth index : ℕ) (rest : List Token) :
    SqlLex.findClose depth index (l ++ rest) = SqlLex.findClose depth (index + l.length) rest := by
  induction h generalizing depth index rest with
  | nil => rfl
  | token hleft hright _ ih =>
    rw [cons_append, SqlLex.findClose, ih, length_cons]
    · congr 1
      omega
    · exact hleft
    · exact fun _ => hright
    · exact fun _ _ => hright
  | group _ _ ihl ihm =>
    rw [cons_append, SqlLex.findClose, append_assoc, ihl, cons_append,
      SqlLex.findClose, ihm]
    simp only [length_cons, length_append]
    congr 1
    omega

lemma Balanced.findOpen (h : Balanced l) (depth : ℕ) (before : List Token) :
    SqlLex.findOpen depth (l.reverse ++ before) = SqlLex.findOpen depth before := by
  induction h generalizing depth before with
  | nil => rfl
  | token hleft hright _ ih =>
    rw [reverse_cons, append_assoc, ih, singleton_append, SqlLex.findOpen]
    · exact hright
    · exact fun _ => hleft
    · exact fun _ _ => hleft
  | group _ _ ihl ihm =>
    simp only [reverse_cons, reverse_append, append_assoc, ihm, cons_append,
      nil_append, SqlLex.findOpen, ihl]

/-- A place in balanced tokens is inside a group, with balanced tokens around it, or outside of
every group. -/
theorem Balanced.split {tokens : List Token} (h : Balanced tokens) (heq : tokens = l ++ m) :
    Balanced l ∧ Balanced m ∨ ∃ before inner inner' rest, l = before ++ .leftParen :: inner ∧
      m = inner' ++ .rightParen :: rest ∧ Balanced inner ∧ Balanced inner' := by
  induction h generalizing l m with
  | nil =>
    obtain ⟨rfl, rfl⟩ := append_eq_nil_iff.1 heq.symm
    exact .inl ⟨.nil, .nil⟩
  | token hleft hright h ih =>
    cases l with
    | nil =>
      rw [nil_append] at heq
      exact .inl ⟨.nil, heq ▸ .token hleft hright h⟩
    | cons t l =>
      obtain ⟨rfl, htail⟩ := List.cons.inj heq
      rcases ih htail with ⟨hl, hm⟩ | ⟨before, inner, inner', rest, rfl, hm⟩
      · exact .inl ⟨.token hleft hright hl, hm⟩
      · exact .inr ⟨_ :: before, inner, inner', rest, rfl, hm⟩
  | @group x y hx hy ihx ihy =>
    cases l with
    | nil =>
      rw [nil_append] at heq
      exact .inl ⟨.nil, heq ▸ .group hx hy⟩
    | cons t l =>
      obtain ⟨rfl, htail⟩ := List.cons.inj heq
      rcases append_eq_append_iff.1 htail with ⟨l', rfl, hrest⟩ | ⟨x', rfl, rfl⟩
      · cases l' with
        | nil =>
          -- The place is before the closing parenthesis.
          obtain rfl := hrest.symm
          exact .inr ⟨[], x, [], y, by simp, rfl, hx, .nil⟩
        | cons _ l' =>
          obtain ⟨rfl, rfl⟩ := List.cons.inj hrest
          rcases ihy rfl with ⟨hl, hm⟩ | ⟨before, inner, inner', rest, rfl, hm⟩
          · exact .inl ⟨.group hx hl, hm⟩
          · exact .inr ⟨.leftParen :: (x ++ .rightParen :: before), inner, inner', rest,
              by simp, hm⟩
      · rcases ihx rfl with ⟨hl, hm⟩ | ⟨before, inner, inner', rest, rfl, rfl, hinner⟩
        · exact .inr ⟨[], l, x', y, rfl, rfl, hl, hm⟩
        · exact .inr ⟨.leftParen :: before, inner, inner', rest ++ .rightParen :: y, rfl, by simp,
            hinner⟩

end Balanced

/-! ## Groups -/

/-- The tokens from an index on and before another are the inside of a pair of parentheses. -/
def IsGroup (tokens : List Token) (start stop : ℕ) : Prop :=
  ∃ before inside rest, tokens = before ++ .leftParen :: (inside ++ .rightParen :: rest) ∧
    Balanced inside ∧ start = before.length + 1 ∧ stop = start + inside.length

/-- The innermost group around two positions, or all tokens if no group is around them. -/
def IsInnermost (tokens : List Token) (first last start stop : ℕ) : Prop :=
  (IsGroup tokens start stop ∧ start ≤ first ∧ last < stop ∧
    ∀ start' stop', IsGroup tokens start' stop' → start' ≤ first → last < stop' →
      start' ≤ start ∧ stop ≤ stop') ∨
  start = 0 ∧ stop = tokens.length ∧
    ∀ start' stop', IsGroup tokens start' stop' → start' ≤ first → stop' ≤ last

section Groups

variable {tokens : List Token} {start stop bound : ℕ}

lemma IsGroup.findClose (h : IsGroup tokens start stop) :
    SqlLex.findClose 0 start (tokens.drop start) = some stop := by
  obtain ⟨before, inside, rest, rfl, hinside, rfl, rfl⟩ := h
  have hdrop : (before ++ .leftParen :: (inside ++ .rightParen :: rest)).drop (before.length + 1) =
      inside ++ .rightParen :: rest := by
    rw [drop_append]
    simp
  rw [hdrop, hinside.findClose, SqlLex.findClose]

lemma findOpen_last {before inner : List Token} (h : Balanced inner) :
    findOpen 0 (before ++ .leftParen :: inner).reverse = some before.length := by
  rw [reverse_append, reverse_cons, append_assoc, h.findOpen, singleton_append,
    findOpen, length_reverse]

lemma take_group {before inside rest : List Token} {k : ℕ} (hk : k ≤ inside.length) :
    (before ++ .leftParen :: (inside ++ .rightParen :: rest)).take (before.length + 1 + k) =
      before ++ .leftParen :: inside.take k := by
  rw [take_append, take_of_length_le (by omega),
    show before.length + 1 + k - before.length = k + 1 by omega, take_succ_cons,
    take_append_of_le_length hk]

/-- A place in a group has an open parenthesis before it, that of the group or one inside. -/
theorem IsGroup.findOpen (h : IsGroup tokens start stop) (hstart : start ≤ bound)
    (hstop : bound ≤ stop) :
    ∃ n, start ≤ n + 1 ∧ SqlLex.findOpen 0 (tokens.take bound).reverse = some n := by
  obtain ⟨before, inside, rest, rfl, hinside, rfl, rfl⟩ := h
  obtain ⟨k, rfl⟩ := Nat.exists_eq_add_of_le hstart
  rw [take_group (by omega)]
  rcases hinside.split (take_append_drop k inside).symm with
    ⟨hinner, -⟩ | ⟨before', inner, _, _, heq, -, hinner, -⟩
  · exact ⟨_, Nat.le_refl _, findOpen_last hinner⟩
  · rw [heq, ← cons_append, ← append_assoc]
    exact ⟨_, by simp, findOpen_last hinner⟩

/-- Before its closing parenthesis that of the group is open. -/
theorem IsGroup.findOpen_stop (h : IsGroup tokens start stop) :
    ∃ n, start = n + 1 ∧ SqlLex.findOpen 0 (tokens.take stop).reverse = some n := by
  obtain ⟨before, inside, rest, rfl, hinside, rfl, rfl⟩ := h
  rw [take_group (Nat.le_refl _), take_length]
  exact ⟨_, rfl, findOpen_last hinside⟩

lemma exists_group (h : Balanced tokens) {n : ℕ}
    (hopen : findOpen 0 (tokens.take bound).reverse = some n) :
    ∃ stop, IsGroup tokens (n + 1) stop ∧ bound ≤ stop := by
  rcases h.split (take_append_drop bound tokens).symm with
    ⟨hbalanced, -⟩ | ⟨before, inner, inner', rest, htake, hdrop, hinner, hinner'⟩
  · rw [← append_nil (tokens.take bound).reverse, hbalanced.findOpen] at hopen
    cases hopen
  · rw [htake, findOpen_last hinner] at hopen
    obtain rfl := Option.some.inj hopen
    refine ⟨_, ⟨before, inner ++ inner', rest, ?_, hinner.append hinner', rfl, rfl⟩, ?_⟩
    · rw [← take_append_drop bound tokens, htake, hdrop]
      simp
    · have htake := congrArg List.length htake
      have hdrop := congrArg List.length hdrop
      simp only [length_take, length_drop, length_append, length_cons] at *
      omega

/-- Of two groups around a place, the one that begins first ends last. -/
theorem IsGroup.nested {start' stop' : ℕ} (h : IsGroup tokens start stop)
    (h' : IsGroup tokens start' stop') (hstart : start' ≤ start) (hposition : start < stop') :
    stop ≤ stop' := by
  refine Nat.le_of_not_lt fun hlt => ?_
  obtain ⟨n, hn, hopen⟩ := h.findOpen (show start ≤ stop' by omega) (by omega)
  obtain ⟨n', rfl, hopen'⟩ := h'.findOpen_stop
  obtain rfl := Option.mem_unique hopen hopen'
  obtain rfl : start = n + 1 := by omega
  have hstop := Option.mem_unique h.findClose h'.findClose
  omega

lemma enclosingGroup_loop (h : Balanced tokens) {first last bound : ℕ} (hle : first ≤ last)
    (hbound : bound ≤ first)
    (hgroups : ∀ start stop, IsGroup tokens start stop → start ≤ first → last < stop →
      start ≤ bound) :
    IsInnermost tokens first last (enclosingGroup tokens bound last).1
      (enclosingGroup tokens bound last).2 := by
  induction bound using Nat.strongRecOn with
  | ind bound ih =>
    have hfound : ∀ start stop, IsGroup tokens start stop → start ≤ first → last < stop →
        ∃ n, start ≤ n + 1 ∧ findOpen 0 (tokens.take bound).reverse = some n :=
      fun start stop hgroup hfirst hlast =>
        hgroup.findOpen (hgroups start stop hgroup hfirst hlast) (by omega)
    rw [enclosingGroup]
    split
    · rename_i hnone
      refine .inr ⟨rfl, rfl, fun start stop hgroup hfirst => Nat.le_of_not_lt fun hlast => ?_⟩
      obtain ⟨n, -, hopen⟩ := hfound start stop hgroup hfirst hlast
      rw [hnone] at hopen
      cases hopen
    · rename_i n hopen
      have hn := findOpen_lt hopen
      rw [length_reverse, length_take] at hn
      obtain ⟨stop, hgroup, hstop⟩ := exists_group h hopen
      have hinside : ∀ start' stop', IsGroup tokens start' stop' → start' ≤ first → last < stop' →
          start' ≤ n + 1 := by
        intro start' stop' hgroup' hfirst hlast
        obtain ⟨n', hn', hopen'⟩ := hfound start' stop' hgroup' hfirst hlast
        obtain rfl := Option.mem_unique hopen hopen'
        exact hn'
      simp only [hgroup.findClose, Option.getD_some]
      split
      · rename_i hlast
        refine .inl ⟨hgroup, by omega, hlast, fun start' stop' hgroup' hfirst' hlast' => ?_⟩
        have hstart := hinside start' stop' hgroup' hfirst' hlast'
        exact ⟨hstart, hgroup.nested hgroup' hstart (by omega)⟩
      · rename_i hlast
        refine ih n (by omega) (by omega) fun start' stop' hgroup' hfirst' hlast' => ?_
        have hstart := hinside start' stop' hgroup' hfirst' hlast'
        have hne : start' ≠ n + 1 := by
          rintro rfl
          have hsame := Option.mem_unique hgroup.findClose hgroup'.findClose
          omega
        omega

end Groups

/-! ## Match modes -/

inductive FilterMatch where
  | contains
  | prefixed
  | exact
  | isNull
  | range
  deriving DecidableEq

def occurs (window group : List Token) : Bool := group.tails.any (window.isPrefixOf ·)

/-- The match mode that a group of tokens implements for the parameter. -/
def filterMode (parameter : ℕ) (group : List Token) : Option FilterMatch :=
  if .identifier "strpos" ∈ group then some .contains
  else if .identifier "starts_with" ∈ group then some .prefixed
  else if occurs [.identifier "in", .leftParen] group then some .exact
  else if .identifier "boolean" ∈ group then some .isNull
  else if occurs [.parameter parameter, .other 58, .other 58, .identifier "jsonb", .other 45,
      .other 62, .other 62] group then some .range
  else none

def uses (tokens : List Token) (parameter : ℕ) : List ℕ :=
  (List.range tokens.length).filter fun index => tokens[index]? = some (.parameter parameter)

def filterPredicate (sql : List ℕ) (parameter : ℕ) : Option (Option FilterMatch × ℕ) :=
  match uses (tokens sql) parameter with
  | [] => none
  | first :: rest =>
    let last := rest.getLast?.getD first
    let offset := ((positionedTokens sql)[first]?.map Prod.fst).getD 0
    let (start, stop) := enclosingGroup (tokens sql) first last
    some (filterMode parameter (((tokens sql).take stop).drop start),
      (sql.take offset).count 10 + 1)

lemma between_of_uses {tokens : List Token} {parameter first : ℕ} {rest : List ℕ}
    (h : uses tokens parameter = first :: rest) :
    rest.getLast?.getD first ∈ first :: rest ∧
      ∀ index ∈ first :: rest, first ≤ index ∧ index ≤ rest.getLast?.getD first := by
  have hsorted : (first :: rest).Pairwise (· < ·) := h ▸ pairwise_lt_range.filter _
  rcases eq_nil_or_concat rest with rfl | ⟨before, last, rfl⟩
  · simp
  rw [concat_eq_append, getLast?_concat, Option.getD_some] at *
  refine ⟨by simp, fun index hindex => ?_⟩
  rw [← cons_append] at hsorted hindex
  obtain ⟨hbefore, -, hlast⟩ := pairwise_append.1 hsorted
  have hfirst := (pairwise_cons.1 hbefore).1
  rcases mem_append.1 hindex with hindex | hindex
  · have := hlast index hindex last mem_cons_self
    rcases mem_cons.1 hindex with rfl | hindex
    · omega
    · have := hfirst index hindex
      omega
  · obtain rfl := mem_singleton.1 hindex
    have := hlast first mem_cons_self index mem_cons_self
    omega

/-- Filter predicates are cut at the innermost group: in balanced tokens `enclosing_group` returns
the inside of the innermost group around two positions, and the match mode of a parameter is that of
the innermost group that holds all references to it. -/
theorem filterPredicate_innermost :
    (∀ tokens first last, Balanced tokens → first ≤ last →
      IsInnermost tokens first last (enclosingGroup tokens first last).1
        (enclosingGroup tokens first last).2) ∧
    ∀ sql parameter, Balanced (tokens sql) →
      (filterPredicate sql parameter = none ↔ uses (tokens sql) parameter = []) ∧
      ∀ mode line, filterPredicate sql parameter = some (mode, line) →
        ∃ first ∈ uses (tokens sql) parameter, ∃ last ∈ uses (tokens sql) parameter,
          (∀ index ∈ uses (tokens sql) parameter, first ≤ index ∧ index ≤ last) ∧
          ∃ start stop, IsInnermost (tokens sql) first last start stop ∧
            mode = filterMode parameter (((tokens sql).take stop).drop start) := by
  have hgroup : ∀ tokens first last, Balanced tokens → first ≤ last →
      IsInnermost tokens first last (enclosingGroup tokens first last).1
        (enclosingGroup tokens first last).2 :=
    fun tokens first last h hle =>
      enclosingGroup_loop h hle (Nat.le_refl _) fun _ _ _ hfirst _ => hfirst
  refine ⟨hgroup, fun sql parameter hbalanced => ?_⟩
  unfold filterPredicate
  cases huses : uses (tokens sql) parameter with
  | nil => simp
  | cons first rest =>
    refine ⟨by simp, fun mode line h => ?_⟩
    obtain ⟨hlast, hbetween⟩ := between_of_uses huses
    obtain ⟨rfl, -⟩ := Prod.mk.inj (Option.some.inj h)
    exact ⟨first, mem_cons_self, _, hlast, hbetween, _, _,
      hgroup _ _ _ hbalanced (hbetween _ hlast).1, rfl⟩

namespace Sample

def nullable : List ℕ := "(boolean or $1) and b".toList.map Char.toNat

lemma balanced_nullable : Balanced (tokens nullable) := by
  have htokens : tokens nullable = .leftParen ::
      ([.identifier "boolean", .identifier "or", .parameter 1] ++
        .rightParen :: [.identifier "and", .identifier "b"]) := by
    decide +kernel
  rw [htokens]
  exact .group (.token nofun nofun (.token nofun nofun (.token nofun nofun .nil)))
    (.token nofun nofun (.token nofun nofun .nil))

/-- The parameter has the mode of the group it stands in. -/
theorem nullable_is_cut : filterPredicate nullable 1 = some (some .isNull, 1) ∧
    IsInnermost (tokens nullable) 3 3 1 4 := by
  have hgroup : enclosingGroup (tokens nullable) 3 3 = (1, 4) := by decide +kernel
  have hinnermost :=
    filterPredicate_innermost.1 (tokens nullable) 3 3 balanced_nullable (Nat.le_refl 3)
  rw [hgroup] at hinnermost
  exact ⟨by decide +kernel, hinnermost⟩

end Sample

end Wamn.SqlLex
