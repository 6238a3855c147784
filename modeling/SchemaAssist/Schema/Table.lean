import SchemaAssist.Text.Blank
import SchemaAssist.Text.Search
import SchemaAssist.Schema.Layout

/-! # Table descriptions

Tables with their columns and indexes, written out as a well-formed document:

    Table users {
      id bigint
      Indexes {
        (id, name) unique btree
      }
    }
-/
namespace SchemaAssist.Schema
open Syntax

/-- Columns of an index, an empty name leaving its slot empty, and perhaps type words. -/
structure Index where
  columns : List String
  type : Option String
  deriving Repr, DecidableEq

structure Table where
  name : String
  columns : List (String × String)
  indexes : List Index
  deriving Repr, DecidableEq

structure Document where
  source : String
  tree : Tree

namespace Index

def slot (name : String) : List Layout :=
  if name.isEmpty then [] else [.node .indexColumnName [.leaf .identifier name]]

def laterSlots (names : List String) : List Layout :=
  names.flatMap fun name => .leaf .punctuation "," :: .gap " " :: slot name

def slots : List String → List Layout
  | [] => []
  | name :: rest => slot name ++ laterSlots rest

def keywords (words : List String) : List Layout :=
  (words.map fun word => Layout.leaf .keyword word).intersperse (.gap " ")

def layout (ix : Index) : Layout :=
  .node .index
    (.node .indexColumnBlock (.leaf .parenOpen "(" :: slots ix.columns ++ [.leaf .parenClose ")"]) ::
      match ix.type with
      | none => []
      | some type => [.gap " ", .node .indexType (keywords (Text.words type))])

def lines (indexes : List Index) : List Layout :=
  indexes.flatMap fun ix => [.gap "    ", ix.layout, .gap "\n"]

def block (indexes : List Index) : List Layout :=
  if indexes.isEmpty then []
  else
    [.gap "  ",
     .node .indexBlock
      ([.leaf .indexes "Indexes", .gap " ", .leaf .braceOpen "\x7b", .gap "\n"] ++ lines indexes ++
        [.gap "  ", .leaf .braceClose "\x7d"]),
     .gap "\n"]

end Index

namespace Table

def column (c : String × String) : Layout :=
  .node .column
    [.node .columnName [.leaf .identifier c.1], .gap " ", .node .dataType [.leaf .type c.2]]

def columnLines (columns : List (String × String)) : List Layout :=
  columns.flatMap fun c => [.gap "  ", column c, .gap "\n"]

def layout (t : Table) : Layout :=
  .node .tableBlock
    ([.leaf .table "Table", .gap " ", .node .tableName [.leaf .identifier t.name], .gap " ",
      .leaf .braceOpen "\x7b", .gap "\n"] ++ columnLines t.columns ++ Index.block t.indexes ++
      [.leaf .braceClose "\x7d"])

end Table

/-- Tables one after the other, each ended by a line end. -/
def layout (tables : List Table) : Layout :=
  .node .sourceFile (tables.flatMap fun t => [t.layout, .gap "\n"])

/-- The document of a layout; the parts a layout has besides its first node are left out. -/
def Document.ofLayout (l : Layout) : Document where
  source := l.text
  tree := match l.outlines 0 with
    | [] => .empty 0
    | o :: _ => o.toTree

/-- Tables written out, with the tree of the text. -/
def render (tables : List Table) : Document := .ofLayout (layout tables)

namespace Document

def offsetOf (d : Document) (needle : String) (start : Nat) : Except Text.SearchError Nat :=
  Text.findFrom d.source needle start "in fixture"

def offsetAfter (d : Document) (needle : String) : Except Text.SearchError Nat :=
  (d.offsetOf needle 0).map (· + Text.size needle)

end Document
end SchemaAssist.Schema
