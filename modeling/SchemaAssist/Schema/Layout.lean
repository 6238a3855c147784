import SchemaAssist.Syntax.Outline

/-! # Layouts

A layout gives a text together with the nodes that span it. The text is the leaves and gaps in
order, and each node spans the text of its parts, so offsets and text agree by construction.
-/
namespace SchemaAssist.Schema
open Syntax

inductive Layout where
  | gap (text : String)
  | leaf (kind : Kind) (text : String)
  | node (kind : Kind) (parts : List Layout)
  deriving Repr

namespace Layout

mutual

def text : Layout → String
  | .gap text => text
  | .leaf _ text => text
  | .node _ parts => textAll parts

def textAll : List Layout → String
  | [] => ""
  | p :: rest => text p ++ textAll rest

end

mutual

/-- The nodes of a layout whose text starts at an offset. -/
def outlines (pos : Nat) : Layout → List Outline
  | .gap _ => []
  | .leaf kind text => [.node kind (some (pos, pos + Text.size text)) []]
  | .node kind parts =>
    [.node kind (some (pos, pos + Text.size (textAll parts))) (outlinesAll pos parts)]

def outlinesAll (pos : Nat) : List Layout → List Outline
  | [] => []
  | p :: rest => outlines pos p ++ outlinesAll (pos + Text.size (text p)) rest

end

end Layout
end SchemaAssist.Schema
