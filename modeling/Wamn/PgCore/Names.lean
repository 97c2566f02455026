import Wamn.Lib.PgScan

/-!
# Names in generated SQL

Generated SQL names schemas, tables and roles by quoted identifiers, which are checked before they
are quoted. A text is the list of its bytes.
-/

namespace Wamn.PgCore

open Lib.PgScan

/-- Quote an identifier: the quotes within it are doubled. -/
def quoteIdent (ident : List ℕ) : List ℕ :=
  34 :: (ident.flatMap fun b => if b = 34 then [34, 34] else [b]) ++ [34]

/-- A name that `Identifier::new` accepts. -/
structure Identifier where
  value : List ℕ
  nonempty : value ≠ []
  noNul : 0 ∉ value
  short : value.length ≤ 63

def Identifier.quoted (name : Identifier) : List ℕ := quoteIdent name.value

/-- A name within a schema. -/
structure QualifiedName where
  schema : Identifier
  name : Identifier

def QualifiedName.quoted (q : QualifiedName) : List ℕ := q.schema.quoted ++ 46 :: q.name.quoted

variable {rest : List ℕ}

lemma quotedEnd_quoteIdent (ident : List ℕ) (hrest : headIs (· == 34) rest = false) :
    quotedEnd ((ident.flatMap fun b => if b = 34 then [34, 34] else [b]) ++ 34 :: rest) =
      some (ident, rest) := by
  induction ident with
  | nil =>
    cases rest with
    | nil => rfl
    | cons b r => simp_all [quotedEnd, headIs]
  | cons a ident ih =>
    rw [List.flatMap_cons, List.append_assoc]
    split
    · rename_i hquote
      simp [quotedEnd, ih, hquote]
    · rename_i hother
      -- Something follows the byte, if only the closing quote.
      obtain ⟨b, r, hnext⟩ := List.exists_cons_of_ne_nil (show (ident.flatMap fun b =>
        if b = 34 then [34, 34] else [b]) ++ 34 :: rest ≠ [] by simp)
      rw [hnext] at ih ⊢
      simp [quotedEnd, hother, ih]

lemma next_quoted (name : Identifier) (hrest : headIs (· == 34) rest = false) :
    next (name.quoted ++ rest) = some (⟨.quotedName name.value, name.quoted⟩, rest) := by
  have hend := quotedEnd_quoteIdent name.value hrest
  have hkind : nextKind (name.quoted ++ rest) = some (.quotedName name.value, rest) := by
    simp [Identifier.quoted, quoteIdent, nextKind, isSpace, quotedNext, hend, name.nonempty]
  simp only [next, hkind, Option.map_some, cut_append]

/-- **Quoted names are read back.** PostgreSQL reads a quoted schema and table as that schema, a dot
and that table, and goes on behind them, unless the text there begins with a quote. -/
theorem qualifiedName_read_back (q : QualifiedName) (hrest : headIs (· == 34) rest = false) :
    ∃ s t, next (q.quoted ++ rest) = some (⟨.quotedName q.schema.value, q.schema.quoted⟩, s) ∧
      next s = some (⟨.symbol, [46]⟩, t) ∧
      next t = some (⟨.quotedName q.name.value, q.name.quoted⟩, rest) := by
  refine ⟨46 :: q.name.quoted ++ rest, q.name.quoted ++ rest, ?_, ?_, next_quoted _ hrest⟩
  · rw [QualifiedName.quoted, List.append_assoc]
    exact next_quoted q.schema rfl
  · have hkind : nextKind (46 :: q.name.quoted ++ rest) = some (.symbol, q.name.quoted ++ rest) :=
      rfl
    have hcut : cut (46 :: q.name.quoted ++ rest) (q.name.quoted ++ rest) = [46] :=
      cut_append [46] _
    simp only [next, hkind, Option.map_some, hcut]

/-- The quote in a table's name does not end it. -/
theorem quoted_quote_read_back : ∃ s t,
    next (quoteIdent [97] ++ 46 :: quoteIdent [34] ++ [32]) =
        some (⟨.quotedName [97], quoteIdent [97]⟩, s) ∧
      next s = some (⟨.symbol, [46]⟩, t) ∧
      next t = some (⟨.quotedName [34], quoteIdent [34]⟩, [32]) :=
  qualifiedName_read_back ⟨⟨[97], nofun, by decide, by decide⟩, ⟨[34], nofun, by decide, by decide⟩⟩
    rfl

end Wamn.PgCore
