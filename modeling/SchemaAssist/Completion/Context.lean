import SchemaAssist.Text.Ascii
import SchemaAssist.Text.Search
import SchemaAssist.Syntax.Tree

/-! # Completion contexts

Where the cursor stands, as far as suggestions go. An error node at the cursor counts for more than
the nodes around it; without one that tells, the nearest node with a rule decides.
-/
namespace SchemaAssist.Completion
open Syntax

/-- What is expected at the cursor, with the nodes that show it. -/
inductive Context where
  /-- An error outside any table: a table is expected. -/
  | topLevel (error : Nat)
  /-- An error after a column name or inside a data type. -/
  | dataType (error : Nat)
  /-- An error among the options of a column. -/
  | options (error : Nat)
  /-- At or after the end of an index, with what of `unique btree|hash` is written already. -/
  | indexType (index replaceFrom : Nat) (hasUnique hasMethod : Bool)
  /-- Among the columns of an index. -/
  | indexColumns (block table : Nat)
  | column (column : Nat)
  /-- In a table where nothing else applies. -/
  | tableBody (table : Nat)
  /-- Outside any table. -/
  | script
  deriving Repr, DecidableEq

namespace Context

def name : Context → String
  | .topLevel _ => "top-level"
  | .dataType _ => "data-type"
  | .options _ => "options"
  | .indexType .. => "index-type"
  | .indexColumns .. => "index-columns"
  | .column _ => "column"
  | .tableBody _ => "table-body"
  | .script => "script"

def isErrorDriven : Context → Bool
  | .topLevel _ | .dataType _ | .options _ => true
  | _ => false

end Context

/-- Whether a node, taken from one byte before it, is just one space. -/
def isOneSpace (text : String) (t : Tree) (i : Nat) : Bool :=
  decide (0 < t.start i) && Text.slice? text (t.start i - 1) (t.stop i) = some " "

/-- The context an error gives by its place in the tree. -/
def classifyError (text : String) (t : Tree) (e : Nat) : Option Context :=
  match t.parent e with
  | none => none
  | some p =>
    if t.kind p = .sourceFile then some (.topLevel e)
    else if ((t.node e).prevSibling.any (t.kind · = .columnName) || t.hasAncestor e .dataType) &&
        isOneSpace text t e then
      some (.dataType e)
    else if t.hasAncestor e .options then some (.options e)
    else none

def isSpaceOrTab (c : Char) : Bool := c = ' ' || c = '\t'

/-- The characters at the end that come after the last space or tab. -/
def lastWord (cs : List Char) : List Char := (cs.reverse.takeWhile fun c => !isSpaceOrTab c).reverse

/-- The context after the last part of an index. -/
def indexTypeContext (text : String) (t : Tree) (index offset : Nat) : Option Context :=
  match (t.node index).lastChild with
  | none => none
  | some block =>
    if offset < t.stop block then none
    else
      match Text.slice? text (t.start block) offset with
      | none => none
      | some typed =>
        let marker := match t.child? index .indexType with
          | some m => Text.lowerAscii (t.text text m)
          | none => ""
        some (.indexType index (offset - Text.byteLength (lastWord typed.toList))
          (Text.contains marker "unique")
          (Text.contains marker "btree" || Text.contains marker "hash"))

/-- The last index that ends before the cursor, if it ends in the cursor's line. -/
def indexOnLine (text : String) (t : Tree) (block offset : Nat) : Option Nat :=
  match ((t.childrenOf block .index).filter fun i => decide (t.stop i ≤ offset)).getLast? with
  | none => none
  | some i =>
    match Text.slice? text (t.stop i) offset with
    | some gap => if gap.toList.contains '\n' then none else some i
    | none => none

/-- The context of the first node with a rule that applies. `atError` says that an error touches
the cursor. -/
def contextOnPath (text : String) (t : Tree) (offset : Nat) (atError : Bool) :
    List Nat → Option Context
  | [] => none
  | i :: above =>
    match t.kind i with
    | .index =>
      match indexTypeContext text t i offset with
      | some c => some c
      | none => contextOnPath text t offset atError above
    | .indexColumnBlock =>
      match t.ancestor? i .tableBlock with
      | some table => some (.indexColumns i table)
      | none => contextOnPath text t offset atError above
    | .indexBlock => (indexOnLine text t i offset).bind fun ix => indexTypeContext text t ix offset
    | .column =>
      if atError then contextOnPath text t offset atError above else some (.column i)
    | .tableBlock => some (.tableBody i)
    | .sourceFile => some .script
    | _ => contextOnPath text t offset atError above

/-- The context at an offset; past the end, that of the end. There is none in strings and
comments. -/
def detect (text : String) (t : Tree) (offset : Nat) : Option Context :=
  let offset := min offset (Text.size text)
  let node := t.resolve offset
  if (t.kind node).isLiteralOrComment then none
  else
    let error := t.errorAt offset
    match error.bind (classifyError text t) with
    | some c => some c
    | none => contextOnPath text t offset error.isSome (node :: t.ancestors node)

end SchemaAssist.Completion
