import SchemaAssist.Syntax.Builder

/-! # Trees described by nesting

An outline gives a node by its kind, its span and its children. Where the span is left out, it
runs from the start of the first child to the end of the last one.
-/
namespace SchemaAssist.Syntax

inductive Outline where
  | node (kind : Kind) (span : Option (Nat × Nat)) (children : List Outline)
  deriving Repr

namespace Outline

mutual

/-- Where the span starts; 0 if nothing gives it. -/
def start : Outline → Nat
  | .node _ (some span) _ => span.1
  | .node _ none children => firstStart children

def firstStart : List Outline → Nat
  | [] => 0
  | o :: _ => start o

end

mutual

/-- Where the span ends; at its start if nothing gives it. -/
def stop : Outline → Nat
  | .node _ (some span) _ => span.2
  | .node _ none children => lastStop (firstStart children) children

/-- Where the last outline ends, or the given position. -/
def lastStop (pos : Nat) : List Outline → Nat
  | [] => pos
  | o :: rest => lastStop (stop o) rest

end

mutual

def emit (b : Builder) : Outline → Builder
  | .node kind span children =>
    let o := Outline.node kind span children
    (emitAll (b.start kind o.start) children).finish o.stop

def emitAll (b : Builder) : List Outline → Builder
  | [] => b
  | o :: rest => emitAll (emit b o) rest

end

def toTree (o : Outline) : Tree := (o.emit .new).toTree

end Outline
end SchemaAssist.Syntax
