import SchemaAssist.Syntax.Tree

/-! # Children from both ends

The children of a node taken one at a time from the front or from the back, each child once.
-/
namespace SchemaAssist.Syntax

/-- The first and the last child not yet taken. -/
structure Children where
  front : Option Nat
  back : Option Nat
  deriving Repr, DecidableEq

namespace Children

def of (t : Tree) (i : Nat) : Children := ⟨(t.node i).firstChild, (t.node i).lastChild⟩

/-- The first child left, and the children left after it is taken. -/
def next (t : Tree) (it : Children) : Option Nat × Children :=
  match it.front with
  | none => (none, it)
  | some c =>
    if it.back = some c then (some c, ⟨none, none⟩)
    else (some c, ⟨(t.node c).nextSibling, it.back⟩)

/-- The last child left, and the children left after it is taken. -/
def nextBack (t : Tree) (it : Children) : Option Nat × Children :=
  match it.back with
  | none => (none, it)
  | some c =>
    if it.front = some c then (some c, ⟨none, none⟩)
    else (some c, ⟨it.front, (t.node c).prevSibling⟩)

/-- Takes from the front where the list says so and from the back elsewhere. -/
def run (t : Tree) (it : Children) : List Bool → List (Option Nat)
  | [] => []
  | fromFront :: rest =>
    let taken := if fromFront then it.next t else it.nextBack t
    taken.1 :: run t taken.2 rest

/-- A bound on the numbers of the children left. -/
def bound (it : Children) : Nat := it.back.elim 0 (· + 1)

/-- Takes from the back up to a child that satisfies `p`, which it gives with the children left. -/
def nextBackWhere (t : Tree) (p : Nat → Bool) (it : Children) : Option Nat × Children :=
  let taken := it.nextBack t
  match taken.1 with
  | none => taken
  | some c =>
    if p c then taken
    else if _h : taken.2.bound < it.bound then nextBackWhere t p taken.2
    else (none, taken.2)
termination_by it.bound

end Children
end SchemaAssist.Syntax
