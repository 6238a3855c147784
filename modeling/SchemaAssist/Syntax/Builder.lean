import SchemaAssist.Syntax.Tree

/-! # Building trees from events

A parser reports where nodes start and finish. A node that starts becomes the last child of the
innermost node not yet finished. Surplus finishes do nothing, and nodes left unfinished end where
their children do.
-/
namespace SchemaAssist.Syntax

/-- The nodes so far, and those not yet finished, innermost first. -/
structure Builder where
  nodes : Array Node
  unclosed : List Nat
  deriving Repr, DecidableEq

namespace Builder

def new : Builder := ⟨#[], []⟩

/-- Links node `id` behind its earlier sibling and below its parent. -/
def link (nodes : Array Node) (id : Nat) (parent prev : Option Nat) : Array Node :=
  let nodes := match prev with
    | none => nodes
    | some q => nodes.modify q fun n => { n with nextSibling := some id }
  match parent with
  | none => nodes
  | some p =>
    nodes.modify p fun n => { n with firstChild := n.firstChild.or (some id), lastChild := some id }

def start (b : Builder) (kind : Kind) (pos : Nat) : Builder :=
  let id := b.nodes.size
  let parent := b.unclosed.head?
  let prev := parent.bind fun p => b.nodes[p]?.bind (·.lastChild)
  let node := { Node.alone kind pos pos with parent := parent, prevSibling := prev }
  ⟨link (b.nodes.push node) id parent prev, id :: b.unclosed⟩

def stopOf (b : Builder) (i : Nat) : Nat := (b.nodes[i]?.map (·.stop)).getD 0

/-- Finishes the innermost node, not before its own start nor before its last child's end. -/
def finish (b : Builder) (pos : Nat) : Builder :=
  match b.unclosed with
  | [] => b
  | i :: rest =>
    let childStop := ((b.nodes[i]?.bind (·.lastChild)).map b.stopOf).getD 0
    ⟨b.nodes.modify i fun n => { n with stop := max (max pos n.start) childStop }, rest⟩

def leaf (b : Builder) (kind : Kind) (start stop : Nat) : Builder := (b.start kind start).finish stop

/-- Finishes all nodes where they end so far. -/
def finishAll (b : Builder) : Builder := b.unclosed.foldl (fun b i => b.finish (b.stopOf i)) b

/-- The tree of the nodes; without any, the tree of the empty text. -/
def toTree (b : Builder) : Tree :=
  let nodes := b.finishAll.nodes
  if h : 0 < nodes.size then ⟨nodes, h⟩ else .empty 0

end Builder

inductive Event where
  | start (kind : Kind) (pos : Nat)
  | leaf (kind : Kind) (start stop : Nat)
  | error (pos : Nat)
  | finish (pos : Nat)
  deriving Repr, DecidableEq

def Builder.apply (b : Builder) : Event → Builder
  | .start kind pos => b.start kind pos
  | .leaf kind start stop => b.leaf kind start stop
  | .error pos => b.leaf .error pos pos
  | .finish pos => b.finish pos

def Tree.ofEvents (events : List Event) : Tree := (events.foldl Builder.apply .new).toTree

end SchemaAssist.Syntax
