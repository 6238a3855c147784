import SchemaAssist.Syntax.Tree
import SchemaAssist.Lint.Diagnostic

/-! # Shapes of errors

An error node is classified by its parent and by the sibling before it; the first shape that fits
counts. Each shape has a fixed message, and some a fix.
-/
namespace SchemaAssist.Lint
open Syntax

inductive Shape where
  /-- Outside any table. -/
  | topLevel
  /-- In the place of a table name. -/
  | tableName
  /-- In the place of a column name. -/
  | columnName
  | afterColumnName
  | afterTableName
  /-- In the place of a number in a precision. -/
  | precision
  /-- After a `not` without `null`. -/
  | nullable
  /-- Around an identifier. -/
  | unexpectedIdentifier
  deriving Repr, DecidableEq

namespace Shape

def classify (t : Tree) (e : Nat) : Option Shape :=
  let parent := (t.parent e).map t.kind
  let prev := (t.node e).prevSibling.map t.kind
  if parent = some .sourceFile then some .topLevel
  else if parent = some .tableName then some .tableName
  else if parent = some .columnName then some .columnName
  else if prev = some .columnName then some .afterColumnName
  else if prev = some .tableName then some .afterTableName
  else if parent = some .precision then some .precision
  else if parent = some .nullable then some .nullable
  else if (t.child? e .identifier).isSome then some .unexpectedIdentifier
  else none

def tableClauseExpected : String :=
  "'\x7b', <as query clause>, <default charset option>, <default collate option>, " ++
  "<engine clause>, <like table clause>, <other table option>, COMMENT or PARTITION expected"

/-- The identifier before a precision, if the error stands in one. -/
def typeName? (t : Tree) (e : Nat) : Option Nat :=
  (t.parent e).bind fun p => (t.node p).prevSibling.bind fun prev => t.child? prev .identifier

def diagnostic (text : String) (t : Tree) (e : Nat) (s : Shape) : Diagnostic :=
  let start := t.start e
  let stop := t.stop e
  match s with
  | .topLevel => (Diagnostic.error start stop "Keyword 'Table' is required").withFix ⟨start, "Table "⟩
  | .tableName => .hint (start - 1) stop "Table name"
  | .columnName => .hint start stop "Column name"
  | .afterColumnName => .error start stop "data type expected"
  | .afterTableName => .error start stop tableClauseExpected
  | .precision =>
    let span := match typeName? t e with
      | some i => (t.start i, t.stop i)
      | none => (start, stop)
    let got := (Text.slice? text span.1 span.2).getD ""
    .error span.1 span.2 ("<number> expected, got '" ++ got ++ "'")
  | .nullable =>
    let afterSpace := decide (0 < start) && Text.slice? text (start - 1) stop = some " "
    (Diagnostic.error start stop "NULL expected").withFix
      ⟨start, if afterSpace then "null " else " null "⟩
  | .unexpectedIdentifier => .error start stop ""

end Shape

def errorDiagnostic (text : String) (t : Tree) (e : Nat) : Option Diagnostic :=
  (Shape.classify t e).map (Shape.diagnostic text t e)

end SchemaAssist.Lint
