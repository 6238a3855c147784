import SchemaAssist.Completion.Item
import SchemaAssist.Record
import SchemaAssist.Lint.Diagnostic
import SchemaAssist.Syntax.Kind
import SchemaAssist.Token.Scanner

/-! # Records of tokens, suggestions and diagnostics

The JSON of the values a service hands out, and how it is read back. Every field is written; a
field that may be absent is written as `null` and may be left out of an object. Offsets take eight
bytes and priorities four.
-/
namespace SchemaAssist
open Record

def maxOffset : Nat := UInt64.size

def maxPriority : Nat := UInt32.size

def readOffset (v : Json) : Option Nat := v.natBelow? maxOffset

def optionalField {α : Type} (fields : List (String × Json)) (name : String)
    (read : Json → Option α) : Option (Option α) :=
  fieldOr fields name (Json.optional? read) none

/-! ## Names -/

def WordClass.toJson (c : WordClass) : Json := .str c.label

def WordClass.ofJson? : Json → Option WordClass := member? label all

def TokenKind.toJson (k : TokenKind) : Json := .str k.label

def TokenKind.ofJson? : Json → Option TokenKind := member? label all

def Syntax.Kind.toJson (k : Kind) : Json := .str k.label

def Syntax.Kind.ofJson? : Json → Option Kind := member? label all

def Lint.Severity.label : Severity → String
  | .error => "error"
  | .hint => "hint"

def Lint.Severity.toJson (s : Severity) : Json := .str s.label

def Lint.Severity.ofJson? : Json → Option Severity := member? label [.error, .hint]

def Completion.ItemKind.label : ItemKind → String
  | .keyword => "keyword"
  | .snippet => "snippet"

def Completion.ItemKind.toJson (k : ItemKind) : Json := .str k.label

def Completion.ItemKind.ofJson? : Json → Option ItemKind := member? label [.keyword, .snippet]

/-! ## Tokens -/

def Token.toJson (t : Token) : Json :=
  .obj [("kind", t.kind.toJson), ("from", .ofNat t.start), ("to", .ofNat t.stop)]

def Token.ofJson? (v : Json) : Option Token := do
  let fields ← ofStrict ["kind", "from", "to"] v
  return {
    kind := ← field fields "kind" TokenKind.ofJson?
    start := ← field fields "from" readOffset
    stop := ← field fields "to" readOffset
  }

/-! ## Diagnostics -/

namespace Lint

def Fix.toJson (f : Fix) : Json := .obj [("insertAt", .ofNat f.insertAt), ("text", .str f.text)]

def Fix.ofJson? (v : Json) : Option Fix := do
  let fields ← ofStrict ["insertAt", "text"] v
  return {
    insertAt := ← field fields "insertAt" readOffset
    text := ← field fields "text" Json.text?
  }

def Diagnostic.toJson (d : Diagnostic) : Json :=
  .obj
    [("from", .ofNat d.start), ("to", .ofNat d.stop), ("severity", d.severity.toJson),
     ("message", .str d.message), ("fix", .ofOption Fix.toJson d.fix)]

def Diagnostic.ofJson? (v : Json) : Option Diagnostic := do
  let fields ← ofStrict ["from", "to", "severity", "message", "fix"] v
  return {
    start := ← field fields "from" readOffset
    stop := ← field fields "to" readOffset
    severity := ← field fields "severity" Severity.ofJson?
    message := ← field fields "message" Json.text?
    fix := ← optionalField fields "fix" Fix.ofJson?
  }

end Lint

/-! ## Suggestions -/

namespace Completion

def Item.toJson (it : Item) : Json :=
  .obj
    [("label", .str it.label), ("kind", it.kind.toJson), ("template", .str it.template),
     ("detail", .ofOption Json.str it.detail), ("priority", .ofNat it.priority)]

def Item.ofJson? (v : Json) : Option Item := do
  let fields ← ofStrict ["label", "kind", "template", "detail", "priority"] v
  return {
    label := ← field fields "label" Json.text?
    kind := ← field fields "kind" ItemKind.ofJson?
    template := ← field fields "template" Json.text?
    detail := ← optionalField fields "detail" Json.text?
    priority := ← field fields "priority" (Json.natBelow? maxPriority)
  }

def Result.toJson (r : Result) : Json :=
  .obj [("items", .ofList Item.toJson r.items), ("replace_from", .ofNat r.replaceFrom)]

def Result.ofJson? (v : Json) : Option Result := do
  let fields ← ofStrict ["items", "replace_from"] v
  return {
    items := ← field fields "items" fun v => v.items?.bind (·.mapM Item.ofJson?)
    replaceFrom := ← field fields "replace_from" readOffset
  }

end Completion
end SchemaAssist
