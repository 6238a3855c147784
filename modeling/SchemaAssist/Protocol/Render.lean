import SchemaAssist.Text.Blank
import SchemaAssist.Json.Basic
import SchemaAssist.Completion.Item
import SchemaAssist.Lint.Diagnostic
import SchemaAssist.Protocol.Position

/-! # What an editor is sent

Suggestions, diagnostics and quick fixes in the shapes of the Language Server Protocol, and their
JSON. A field without a value is left out.
-/
namespace SchemaAssist.Protocol
open Completion (ItemKind Result)

structure TextEdit where
  range : Range
  newText : String
  deriving Repr, DecidableEq

/-- How an editor shows a suggestion and reads its text. -/
structure CompletionItem where
  label : String
  kind : Nat
  detail : Option String
  sortText : String
  filterText : String
  insertTextFormat : Nat
  textEdit : TextEdit
  deriving Repr, DecidableEq

structure Diagnostic where
  range : Range
  severity : Nat
  source : String
  message : String
  deriving Repr, DecidableEq

/-- A quick fix: the edit of one document that settles a diagnostic. -/
structure CodeAction where
  title : String
  diagnostic : Diagnostic
  uri : String
  edit : TextEdit
  deriving Repr, DecidableEq

/-! ## Rendering -/

/-- A number with at least five digits, so that the order of texts is that of small numbers. -/
def sortKey (priority : Nat) : String :=
  let digits := Nat.toDigits 10 priority
  String.ofList (List.replicate (5 - digits.length) '0' ++ digits)

def completionItem (text : String) (it : Completion.Item) (replaceFrom cursor : Nat)
    (snippetSupport : Bool) : CompletionItem where
  label := it.label
  kind := if it.kind = .keyword then 14 else 15
  detail := it.detail
  sortText := sortKey it.priority
  filterText := it.label
  insertTextFormat := if it.kind = .snippet && snippetSupport then 2 else 1
  textEdit := ⟨rangeOf text replaceFrom cursor, it.insertText snippetSupport⟩

def completionList (text : String) (r : Result) (cursor : Nat) (snippetSupport : Bool) :
    List CompletionItem :=
  r.items.map fun it => completionItem text it r.replaceFrom cursor snippetSupport

def diagnostic (text : String) (d : Lint.Diagnostic) : Diagnostic where
  range := rangeOf text d.start d.stop
  severity := match d.severity with
    | .error => 1
    | .hint => 4
  source := "dbdl"
  message := d.message

def codeAction? (uri text : String) (d : Lint.Diagnostic) : Option CodeAction :=
  d.fix.map fun f =>
    { title := "Add '" ++ Text.trim f.text ++ "'"
      diagnostic := diagnostic text d
      uri := uri
      edit := ⟨⟨positionAt text f.insertAt, positionAt text f.insertAt⟩, f.text⟩ }

/-! ## JSON -/

def Position.toJson (p : Position) : Json :=
  .obj [("line", .ofNat p.line), ("character", .ofNat p.character)]

def Range.toJson (r : Range) : Json := .obj [("start", r.start.toJson), ("end", r.stop.toJson)]

def TextEdit.toJson (e : TextEdit) : Json :=
  .obj [("range", e.range.toJson), ("newText", .str e.newText)]

def CompletionItem.toJson (it : CompletionItem) : Json :=
  .obj
    ([("label", .str it.label), ("kind", .ofNat it.kind)] ++
      (it.detail.map fun d => ("detail", Json.str d)).toList ++
      [("sortText", .str it.sortText), ("filterText", .str it.filterText),
       ("insertTextFormat", .ofNat it.insertTextFormat), ("textEdit", it.textEdit.toJson)])

def completionListJson (items : List CompletionItem) : Json :=
  .obj [("isIncomplete", .bool false), ("items", .ofList CompletionItem.toJson items)]

def Diagnostic.toJson (d : Diagnostic) : Json :=
  .obj
    [("range", d.range.toJson), ("severity", .ofNat d.severity), ("source", .str d.source),
     ("message", .str d.message)]

def CodeAction.toJson (a : CodeAction) : Json :=
  .obj
    [("title", .str a.title), ("kind", .str "quickfix"),
     ("diagnostics", .arr [a.diagnostic.toJson]),
     ("edit", .obj [("changes", .obj [(a.uri, .arr [a.edit.toJson])])]),
     ("isPreferred", .bool true)]

end SchemaAssist.Protocol
