import Mathlib.Data.String.Basic
import Wamn.Lib.Decimal
import Wamn.Lib.Dependency
import Wamn.Lib.Transaction

/-!
# Document number patterns

A pattern is literal text and tokens in braces: counters with options, fields of the record, parts
of the date. A key that names a counter of the same pattern stands for its value, which must be
rendered first.
-/

namespace Wamn.Numbering

open List Lib Lib.Decimal Lib.Dependency Lib.Text

/-! ## Patterns -/

def maxWidth : ℕ := 32

inductive DateFormat where
  | year
  | shortYear
  | month
  | day
  | week
  | quarter
  deriving DecidableEq

namespace DateFormat

def all : List DateFormat := [.year, .shortYear, .month, .day, .week, .quarter]

def asStr : DateFormat → String
  | .year => "YYYY"
  | .shortYear => "YY"
  | .month => "MM"
  | .day => "DD"
  | .week => "WW"
  | .quarter => "Q"

end DateFormat

/-- What a `reset=` or `per=` option names. -/
inductive Key where
  | field (name : String)
  | counter (name : String)
  | date (format : DateFormat)
  deriving DecidableEq

inductive Scope where
  | always
  | reset (key : Key)
  | per (key : Key)
  deriving DecidableEq

namespace Scope

def key : Scope → Option Key
  | .always => none
  | .reset key => some key
  | .per key => some key

/-- The scope with its key resolved. Only a scope with a key is resolved. -/
def resolve (key : Key) : Scope → Scope
  | .always => .always
  | .reset _ => .reset key
  | .per _ => .per key

end Scope

structure Counter where
  name : String
  scope : Scope
  width : Option ℕ
  pad : Char
  hex : Bool
  deriving DecidableEq

def Counter.needs (counter : Counter) : Option String :=
  match counter.scope.key with
  | some (.counter other) => some other
  | _ => none

inductive Part where
  | literal (text : String)
  | counter (counter : Counter)
  | field (name : String)
  | date (format : DateFormat)
  deriving DecidableEq

def Part.counter? : Part → Option Counter
  | .counter c => some c
  | _ => none

structure Pattern where
  parts : List Part
  deriving DecidableEq

def Pattern.counters (pattern : Pattern) : List Counter := pattern.parts.filterMap Part.counter?

/-! ## Refusals -/

/-- `PatternErrorKind`, where a malformed pattern is one of kind `Syntax`. -/
inductive PatternErrorKind where
  | malformed
  | unknownDateFormat
  | invalidOption
  | invalidCounter
  deriving DecidableEq

inductive PatternError where
  | strayBrace (pattern : String)
  | unclosedToken (pattern : String)
  | nestedToken (pattern : String)
  | noKind (body : String)
  | unknownKind (body : String)
  | notIdentifier (what name : String)
  | unknownDateFormat (format : String)
  | invalidOption (counter option detail : String)
  | repeatedCounter (pattern name : String)
  | counterCycle (pattern name : String)
  deriving DecidableEq

namespace PatternError

def kind : PatternError → PatternErrorKind
  | .strayBrace _ | .unclosedToken _ | .nestedToken _ | .noKind _ | .unknownKind _
  | .notIdentifier _ _ => .malformed
  | .unknownDateFormat _ => .unknownDateFormat
  | .invalidOption _ _ _ => .invalidOption
  | .repeatedCounter _ _ | .counterCycle _ _ => .invalidCounter

/-- The text of a refusal, where `debug` quotes a string. -/
def detail (debug : String → String) : PatternError → String
  | .strayBrace pattern => "pattern " ++ debug pattern ++ " has a '\x7d' outside a token"
  | .unclosedToken pattern => "pattern " ++ debug pattern ++ " has an unclosed token"
  | .nestedToken pattern => "pattern " ++ debug pattern ++ " nests a token"
  | .noKind body => "token \x7b" ++ body ++ "\x7d has no kind"
  | .unknownKind body => "token \x7b" ++ body ++ "\x7d is not seq, field or date"
  | .notIdentifier what name => what ++ " name " ++ debug name ++ " is not an identifier"
  | .unknownDateFormat format =>
    "date format " ++ debug format ++ " is not YYYY, YY, MM, DD, WW or Q"
  | .invalidOption counter option detail =>
    "counter " ++ counter ++ " option " ++ debug option ++ " " ++ detail
  | .repeatedCounter pattern name =>
    "pattern " ++ debug pattern ++ " names counter " ++ name ++ " twice"
  | .counterCycle pattern name =>
    "pattern " ++ debug pattern ++ " keys counter " ++ name ++ " by itself"

end PatternError

/-! ## Tokens -/

/-- A name of lower-case letters, digits and `_` that does not start with a digit. -/
def identifier (what : String) (name : List Char) : Except PatternError String :=
  let valid := match name with
    | [] => false
    | first :: rest =>
      (first.isLower || first = '_') && rest.all fun c => c.isLower || c.isDigit || c = '_'
  if valid then .ok (String.ofList name) else .error (.notIdentifier what (String.ofList name))

def dateFormat (format : List Char) : Except PatternError DateFormat :=
  match DateFormat.all.find? fun candidate => candidate.asStr.toList = format with
  | some format => .ok format
  | none => .error (.unknownDateFormat (String.ofList format))

def widthValue (value : List Char) : Option ℕ :=
  (parseDigits value).filter fun width => width < 2 ^ 16 && 1 ≤ width && width ≤ maxWidth

/-- What the options of a counter have said so far. -/
structure CounterOptions where
  scope : Scope := .always
  key : Option String := none
  width : Option ℕ := none
  pad : Option Char := none
  hex : Bool := false
  deriving DecidableEq

namespace CounterOptions

variable (st : CounterOptions) (invalid : String → PatternError)

/-- The value of `reset=` or `per=`. A name is resolved once all counters are known. -/
def readKey (value : List Char) : Except PatternError (Key × Option String) :=
  match "date:".toList.isPrefixOf? value with
  | some format => do
    let format ← dateFormat format
    pure (.date format, st.key)
  | none => do
    let name ← identifier "key" value
    pure (.field "", some name)

def readScope (scope : Key → Scope) (value : List Char) : Except PatternError CounterOptions := do
  ensure (st.scope = .always) (invalid "is a second reset= or per=")
  let (resolved, key) ← st.readKey value
  pure { st with scope := scope resolved, key }

def readWidth (value : List Char) : Except PatternError CounterOptions := do
  ensure (st.width = none) (invalid "states the width twice")
  match widthValue value with
  | some width => pure { st with width := some width }
  | none => throw (invalid "is not a width")

def readPad (value : List Char) : Except PatternError CounterOptions :=
  match value with
  | [character] => do
    ensure (st.pad = none) (invalid "states the pad twice")
    pure { st with pad := some character }
  | _ => throw (invalid "is not one character")

/-- One turn of the loop over the options of the counter `name`. -/
def read (name : String) (st : CounterOptions) (option : List Char) :
    Except PatternError CounterOptions :=
  let invalid := PatternError.invalidOption name (String.ofList option)
  if let some value := "reset=".toList.isPrefixOf? option then st.readScope invalid .reset value
  else if let some value := "per=".toList.isPrefixOf? option then st.readScope invalid .per value
  else if let some value := "width=".toList.isPrefixOf? option then st.readWidth invalid value
  else if let '0' :: c :: value := option then st.readWidth invalid (c :: value)
  else if let some value := "pad=".toList.isPrefixOf? option then st.readPad invalid value
  else if option = "hex".toList then do
    ensure (!st.hex) (invalid "states hex twice")
    pure { st with hex := true }
  else throw (invalid "is not reset=, per=, width=, 0N, pad= or hex")

end CounterOptions

/-- A counter, and the name of its key that is yet to be resolved. -/
def counter (body : List Char) : Except PatternError (Part × Option String) := do
  let pieces := body.splitOn ','
  let name ← identifier "counter" (pieces.headD [])
  let st ← pieces.tail.foldlM (CounterOptions.read name) {}
  pure (.counter
    { name, scope := st.scope, width := st.width, pad := st.pad.getD '0', hex := st.hex },
    st.key)

def token (body : List Char) : Except PatternError (Part × Option String) :=
  match splitOnce ':' body with
  | none => throw (.noKind (String.ofList body))
  | some (kind, rest) =>
    if kind = "field".toList then do
      let name ← identifier "field" rest
      pure (.field name, none)
    else if kind = "date".toList then do
      let format ← dateFormat rest
      pure (.date format, none)
    else if kind = "seq".toList then counter rest
    else throw (.unknownKind (String.ofList body))

/-! ## Patterns as texts -/

def isBrace (c : Char) : Bool := c = '\x7b' || c = '\x7d'

lemma length_of_splitOnce {sep : Char} {text body rest : List Char}
    (h : splitOnce sep text = some (body, rest)) : rest.length < text.length := by
  obtain ⟨rfl, -⟩ := splitOnce_eq_some.1 h
  simp only [length_append, length_cons]
  omega

/-- The loop of `parse`: the parts, each with the name that is yet to be resolved. -/
def scan (pattern : String) (rest : List Char) :
    Except PatternError (List (Part × Option String)) :=
  match rest with
  | [] => pure []
  | '\x7d' :: _ => throw (.strayBrace pattern)
  | '\x7b' :: rest =>
    match _ : splitOnce '\x7d' rest with
    | none => throw (.unclosedToken pattern)
    | some (body, later) =>
      if '\x7b' ∈ body then throw (.nestedToken pattern)
      else do
        let part ← token body
        let parts ← scan pattern later
        pure (part :: parts)
  | c :: rest => do
    let text := c :: rest.takeWhile fun c => !isBrace c
    let parts ← scan pattern (rest.dropWhile fun c => !isBrace c)
    pure ((.literal (String.ofList text), none) :: parts)
termination_by rest.length
decreasing_by
  · have := length_of_splitOnce ‹_›
    simp only [length_cons]
    omega
  · have := (dropWhile_suffix (l := rest) fun c => !isBrace c).length_le
    simp only [length_cons]
    omega

def firstRepeat : List String → List String → Option String
  | _, [] => none
  | seen, name :: names => if name ∈ seen then some name else firstRepeat (name :: seen) names

/-- A part with its key resolved among the counters of the pattern. -/
def resolvePart (counters : List String) : Part × Option String → Part
  | (.counter counter, some name) =>
    let key := if name ∈ counters then Key.counter name else Key.field name
    .counter { counter with scope := counter.scope.resolve key }
  | (part, _) => part

/-- The counter that the key of the counter of a name names. -/
def Pattern.keyOf (pattern : Pattern) (name : String) : Option String :=
  (pattern.counters.find? fun counter => counter.name = name).bind Counter.needs

def refuseCounterCycles (pattern : Pattern) (text : String) : Except PatternError Unit :=
  pattern.counters.forM fun counter =>
    ensure (!returnsWithin pattern.keyOf counter.name pattern.counters.length counter.name)
      (.counterCycle text counter.name)

def parse (text : String) : Except PatternError Pattern := do
  let scanned ← scan text text.toList
  let counters := (scanned.filterMap fun part => part.1.counter?).map Counter.name
  match firstRepeat [] counters with
  | some name => throw (.repeatedCounter text name)
  | none =>
    let pattern : Pattern := { parts := scanned.map (resolvePart counters) }
    refuseCounterCycles pattern text
    pure pattern

/-! ## Rendering -/

/-- `counter_order`: each counter after the one its key names, none where the renderer would
panic. -/
def counterOrder (pattern : Pattern) : Option (List Counter) :=
  let pending := pattern.counters.mergeSort fun left right => left.name ≤ right.name
  order Counter.name Counter.needs pending.length pending []

end Wamn.Numbering
