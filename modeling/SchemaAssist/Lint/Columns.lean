import SchemaAssist.Syntax.Tree
import SchemaAssist.Lint.Diagnostic

/-! # Columns named in indexes

An index may list only columns of its own table. Names and references are collected while the nodes
are visited and compared at the end, so an index may stand before the columns it lists.
-/
namespace SchemaAssist.Lint
open Syntax

structure Reference where
  table : Nat
  name : String
  start : Nat
  stop : Nat
  deriving Repr, DecidableEq

/-- The columns declared in each table so far, and the references in the order of the visits. -/
structure ColumnCheck where
  declared : List (Nat × List String)
  references : List Reference
  deriving Repr, DecidableEq

namespace ColumnCheck

def new : ColumnCheck := ⟨[], []⟩

/-- The column a node declares, unless it is part of an error. -/
def declaration? (text : String) (t : Tree) (i : Nat) : Option (Nat × String) :=
  if t.kind i = .columnName && !t.hasAncestor i .error then
    (t.ancestor? i .tableBlock).map fun table => (table, t.text text i)
  else none

/-- The column a node refers to, unless its text is empty. -/
def reference? (text : String) (t : Tree) (i : Nat) : Option Reference :=
  if t.kind i = .indexColumnName && !(t.text text i).isEmpty then
    (t.ancestor? i .tableBlock).map fun table => ⟨table, t.text text i, t.start i, t.stop i⟩
  else none

/-- Puts a column among those of its table, once. -/
def declare (table : Nat) (name : String) : List (Nat × List String) → List (Nat × List String)
  | [] => [(table, [name])]
  | e :: rest =>
    if e.1 = table then (e.1, e.2.insert name) :: rest else e :: declare table name rest

def visit (text : String) (t : Tree) (c : ColumnCheck) (i : Nat) : ColumnCheck where
  declared := match declaration? text t i with
    | some (table, name) => declare table name c.declared
    | none => c.declared
  references := c.references ++ (reference? text t i).toList

def visitAll (text : String) (t : Tree) (nodes : List Nat) : ColumnCheck :=
  nodes.foldl (visit text t) new

def declaredIn (c : ColumnCheck) (table : Nat) : List String := (c.declared.lookup table).getD []

/-- A diagnostic for each reference to a column its table lacks. -/
def undeclared (c : ColumnCheck) : List Diagnostic :=
  (c.references.filter fun r => !(c.declaredIn r.table).contains r.name).map fun r =>
    .error r.start r.stop "Column name not found"

end ColumnCheck
end SchemaAssist.Lint
