import Mathlib.Algebra.Group.Nat.Defs
import Wamn.Lib.Json
import Wamn.Lib.Text

/-!
# The wire types of events

What the parts of the event plane share: operations, causations, envelopes of rows, records of
derived events, and message identities.
-/

namespace Wamn.Events

open Lib.Json Lib.Text

inductive Op where
  | insert
  | update
  | delete
  deriving DecidableEq

def Op.asStr : Op → String
  | .insert => "insert"
  | .update => "update"
  | .delete => "delete"

/-- The run that caused an event, the first run of its chain, and the event admissions between the
two. -/
structure Causation where
  run : String
  root : String
  depth : ℕ
  deriving DecidableEq

abbrev Image := List (String × Value)

structure Envelope where
  op : Op
  old : Option Image
  new : Option Image
  packageId : String
  entity : String
  table : String
  lsn : ℕ
  txid : ℕ
  commitTs : ℤ
  causation : Option Causation
  deriving DecidableEq

structure DerivedEvent where
  envKey : String
  project : String
  environment : String
  packageId : String
  entity : String
  op : Op
  payload : Value
  dedupId : String
  causation : Causation
  deriving DecidableEq

/-- The prefix of the message ids of a project's environment. -/
def projectEnv (project env : String) : String := project ++ "_" ++ env

def msgId (project env : String) (lsn : ℕ) : String := projectEnv project env ++ ":" ++ toString lsn

/-- The 32-bit FNV-1a hash of a name, in eight hexadecimal digits. -/
def rawHash (raw : String) : String :=
  let hash : UInt32 := raw.toUTF8.toList.foldl
    (fun hash byte => (hash ^^^ byte.toUInt32) * 0x01000193) 0x811c9dc5
  String.ofList ((List.range 8).map fun i => hexDigit (hash.toNat / 16 ^ (7 - i) % 16))

/-- `subject_token`: what a subject reserves becomes `_`, and then a hash of the name is
appended. -/
def subjectToken (raw : String) : String :=
  let sanitized := String.ofList (raw.toList.map fun c =>
    if c = '.' || c = '*' || c = '>' || isWhiteSpace c || isControl c then '_' else c)
  if sanitized = raw then sanitized else sanitized ++ "_" ++ rawHash raw

/-- Where the events of an entity and an operation are published. -/
def subject (org project env entity : String) (op : Op) : String :=
  "evt." ++ org ++ "." ++ project ++ "." ++ env ++ "." ++ subjectToken entity ++ "." ++ op.asStr

end Wamn.Events
