import SchemaAssist.Text.Bytes
import SchemaAssist.Text.Quoted
import SchemaAssist.Syntax.Kind

/-! # Syntax trees

The nodes of a tree stand in one array, parents before their children, and refer to each other by
index. The root is node 0. Walks go up to smaller or on to larger indices, so each of them ends.
-/
namespace SchemaAssist.Syntax

/-- A node with its span in bytes and its five links. -/
structure Node where
  kind : Kind
  start : Nat
  stop : Nat
  parent : Option Nat
  firstChild : Option Nat
  lastChild : Option Nat
  prevSibling : Option Nat
  nextSibling : Option Nat
  deriving Repr, DecidableEq

def Node.alone (kind : Kind) (start stop : Nat) : Node :=
  ⟨kind, start, stop, none, none, none, none, none⟩

structure Tree where
  nodes : Array Node
  nonempty : 0 < nodes.size
  deriving DecidableEq

namespace Tree

/-- The tree of a text in which nothing was found. -/
def empty (length : Nat) : Tree := ⟨#[.alone .sourceFile 0 length], Nat.one_pos⟩

def size (t : Tree) : Nat := t.nodes.size

def root (t : Tree) : Node :=
  have := t.nonempty
  t.nodes[0]

/-- The node at an index; past the last node, the root. -/
def node (t : Tree) (i : Nat) : Node := t.nodes.getD i t.root

def kind (t : Tree) (i : Nat) : Kind := (t.node i).kind

def start (t : Tree) (i : Nat) : Nat := (t.node i).start

def stop (t : Tree) (i : Nat) : Nat := (t.node i).stop

def parent (t : Tree) (i : Nat) : Option Nat := (t.node i).parent

/-- All nodes, parents before children. -/
def ids (t : Tree) : List Nat := List.range t.size

/-- The part of a text a node spans; empty if the span does not fit the text. -/
def text (t : Tree) (source : String) (i : Nat) : String :=
  (Text.slice? source (t.start i) (t.stop i)).getD ""

/-! ## Walks -/

/-- Proper ancestors, nearest first. -/
def ancestors (t : Tree) (i : Nat) : List Nat :=
  match t.parent i with
  | none => []
  | some p => if _h : p < i then p :: ancestors t p else []
termination_by i

def depth (t : Tree) (i : Nat) : Nat := (t.ancestors i).length

def ancestor? (t : Tree) (i : Nat) (k : Kind) : Option Nat := (t.ancestors i).find? (t.kind · = k)

def hasAncestor (t : Tree) (i : Nat) (k : Kind) : Bool := (t.ancestor? i k).isSome

/-- The siblings after a node, nearest first. -/
def following (t : Tree) (i : Nat) : List Nat :=
  match (t.node i).nextSibling with
  | none => []
  | some j => if _h : i < j ∧ j < t.size then j :: following t j else []
termination_by t.size - i

def preceding (t : Tree) (i : Nat) : List Nat :=
  match (t.node i).prevSibling with
  | none => []
  | some j => if _h : j < i then j :: preceding t j else []
termination_by i

def children (t : Tree) (i : Nat) : List Nat :=
  match (t.node i).firstChild with
  | none => []
  | some c => c :: t.following c

def childrenBack (t : Tree) (i : Nat) : List Nat :=
  match (t.node i).lastChild with
  | none => []
  | some c => c :: t.preceding c

def childrenOf (t : Tree) (i : Nat) (k : Kind) : List Nat := (t.children i).filter (t.kind · = k)

def child? (t : Tree) (i : Nat) (k : Kind) : Option Nat := (t.children i).find? (t.kind · = k)

/-- The node after the subtree of `i` in the subtree of `top`: the next sibling of the nearest
node up the path that has one. -/
def nextAbove (t : Tree) (top i : Nat) : Option Nat :=
  if i = top then none
  else
    match (t.node i).nextSibling with
    | some j => some j
    | none =>
      match t.parent i with
      | none => none
      | some p => if _h : p < i then nextAbove t top p else none
termination_by i

/-- The node after `i` in the subtree of `top`, parents before children. -/
def nextBelow (t : Tree) (top i : Nat) : Option Nat :=
  (t.node i).firstChild.or (t.nextAbove top i)

def walkFrom (t : Tree) (top i : Nat) : List Nat :=
  match t.nextBelow top i with
  | none => [i]
  | some j => if _h : i < j ∧ j < t.size then i :: walkFrom t top j else [i]
termination_by t.size - i

/-- A node and everything below it, parents before children. -/
def descendants (t : Tree) (i : Nat) : List Nat := t.walkFrom i i

/-! ## Positions -/

/-- Whether a node ends at a position or has it inside. -/
def reaches (t : Tree) (pos i : Nat) : Bool := decide (t.start i < pos) && decide (pos ≤ t.stop i)

def resolveFrom (t : Tree) (pos i : Nat) : Nat :=
  match (t.childrenBack i).find? (t.reaches pos) with
  | none => i
  | some c => if _h : i < c ∧ c < t.size then resolveFrom t pos c else c
termination_by t.size - i

/-- The node found from the root by going on to the last child that reaches the position. -/
def resolve (t : Tree) (pos : Nat) : Nat := t.resolveFrom pos 0

def errors (t : Tree) : List Nat := t.ids.filter (t.kind · = .error)

/-- Whether a position lies in a span, either end included. -/
def touches (t : Tree) (pos i : Nat) : Bool := decide (t.start i ≤ pos) && decide (pos ≤ t.stop i)

def deeper (t : Tree) (best : Option Nat) (i : Nat) : Option Nat :=
  match best with
  | none => some i
  | some b => if t.depth b ≤ t.depth i then some i else some b

/-- The deepest error that touches a position, the last one of equally deep ones. -/
def errorAt (t : Tree) (pos : Nat) : Option Nat :=
  (t.errors.filter (t.touches pos)).foldl t.deeper none

/-! ## Written form -/

def labelOf (t : Tree) (i : Nat) : String :=
  (t.kind i).name ++ "@" ++ toString (t.start i) ++ ".." ++ toString (t.stop i)

/-- The line of a node, indented by its depth. A node without children shows its text. -/
def dumpLine (t : Tree) (source : String) (i : Nat) : String :=
  let indent := String.ofList (List.replicate (2 * t.depth i) ' ')
  let shown :=
    if (t.node i).firstChild.isNone && decide (t.start i < t.stop i) then
      " " ++ Text.quote (t.text source i)
    else ""
  indent ++ t.labelOf i ++ shown ++ "\n"

def dump (t : Tree) (source : String) : String := String.join (t.ids.map (t.dumpLine source))

def summary (t : Tree) : String := "[" ++ ", ".intercalate (t.ids.map t.labelOf) ++ "]"

end Tree
end SchemaAssist.Syntax
