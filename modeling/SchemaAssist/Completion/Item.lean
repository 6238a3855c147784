import SchemaAssist.Completion.Snippet

/-! # Suggestions

A result lists suggestions, one for each label, and says from where the cursor's text is replaced.
-/
namespace SchemaAssist.Completion

inductive ItemKind where
  | keyword
  | snippet
  deriving Repr, DecidableEq

/-- One suggestion. Of two, the one with the smaller priority ranks first. -/
structure Item where
  label : String
  kind : ItemKind
  template : String
  detail : Option String
  priority : Nat
  deriving Repr, DecidableEq

namespace Item

def keyword (label : String) (priority : Nat) : Item := ⟨label, .keyword, label, none, priority⟩

def ofSnippet (s : Snippet) (priority : Nat) : Item :=
  ⟨s.label, .snippet, s.template, s.detail, priority⟩

/-- The text to insert; without snippet support, that of a snippet is made plain. -/
def insertText (it : Item) (snippetSupport : Bool) : String :=
  if it.kind = .snippet && !snippetSupport then plainText it.template else it.template

def ranksBefore (a b : Item) : Bool :=
  decide (a.priority < b.priority) || (a.priority = b.priority && decide (a.label ≤ b.label))

end Item

/-- Snippets in order, their priorities from 0 on. -/
def snippetItems (snippets : List Snippet) : List Item :=
  snippets.zipIdx.map fun s => .ofSnippet s.1 s.2

/-- Suggestions for the text from `replaceFrom` to the cursor. -/
structure Result where
  items : List Item
  replaceFrom : Nat
  deriving Repr, DecidableEq

namespace Result

def new (replaceFrom : Nat) : Result := ⟨[], replaceFrom⟩

def labels (r : Result) : List String := r.items.map (·.label)

/-- Whether the label of an item is still free. -/
def admits (r : Result) (it : Item) : Bool := !r.labels.contains it.label

/-- Adds an item unless its label is taken. -/
def push (r : Result) (it : Item) : Result :=
  if r.admits it then { r with items := r.items ++ [it] } else r

def extend (r : Result) (items : List Item) : Result := items.foldl push r

def sorted (r : Result) : List Item := r.items.mergeSort Item.ranksBefore

end Result
end SchemaAssist.Completion
