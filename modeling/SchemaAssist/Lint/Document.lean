import SchemaAssist.Lint.Columns
import SchemaAssist.Lint.Shape

/-! # Diagnostics of a document

One pass over the nodes reports each error of known shape and collects the columns of the nodes that
are no errors. References to undeclared columns are reported after the pass. An empty document has
no diagnostics, whatever its tree.
-/
namespace SchemaAssist
open Syntax

/-- What a pass has reported and collected so far. -/
structure Lint.Pass where
  diagnostics : List Diagnostic
  columns : ColumnCheck

def Lint.Pass.visit (text : String) (t : Tree) (p : Pass) (i : Nat) : Pass :=
  if t.kind i = .error then
    { p with diagnostics := p.diagnostics ++ (errorDiagnostic text t i).toList }
  else { p with columns := p.columns.visit text t i }

def lint (text : String) (t : Tree) : List Lint.Diagnostic :=
  if text.isEmpty then []
  else
    let p := t.ids.foldl (Lint.Pass.visit text t) ⟨[], .new⟩
    p.diagnostics ++ p.columns.undeclared

end SchemaAssist
